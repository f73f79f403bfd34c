import Dlb.Lib.Qsort
import Dlb.Support.MaskText

/-!
# The topology from the system files

`parse_system_files` of `mask_utils.c`: the tables of cores and NUMA nodes are filled while `readdir` returns the
directories of `/sys/devices/system/cpu` and `/sys/devices/system/node`. A core is stored under its core id; if the
slot has another core, under the first free slot, or in a new one, and then the table is sorted at the end.

A `mu_cpuset_t` keeps the count and the ends of a mask as `cpuid_t`, whose width depends on `NCPUS_AT_CONFIGURE_TIME`.
The masks are what the files list, the files themselves are not modelled.
-/

namespace Dlb

/-- `DLB_CPUID_INVALID`: the largest `cpuid_t`. -/
def dlbCpuidInvalid (ncpus : ℕ) : ℕ := if ncpus ≤ 255 then 2 ^ 8 - 1 else 2 ^ 16 - 1

/-- The conversion from `int` to `cpuid_t`. -/
def toCpuid (ncpus : ℕ) (x : ℤ) : ℕ := (x % (dlbCpuidInvalid ncpus + 1 : ℕ)).toNat

/-- `mu_cpuset_t` -/
structure MuCpuset where
  set : CpuSet
  count : ℕ
  firstCpuid : ℕ
  lastCpuid : ℕ
deriving DecidableEq

/-- What `parse_system_files` reads in the directory of a CPU: `core_id` and `thread_siblings_list`. -/
structure CpuDir where
  coreId : ℕ
  siblings : CpuSet

/-- What it reads in the directory of a NUMA node: the number in its name and `cpulist`. -/
structure NodeDir where
  nodeId : ℕ
  cpulist : CpuSet

/-- `core_masks_by_coreid` while the directories are read. -/
structure CoreTable where
  coreMasks : List MuCpuset
  needsReordering : Bool

/-- `mu_system_loc_t`. The number of cores and of nodes is the length of the table; a reference to a core mask is the
number of its slot. -/
structure SysLoc where
  numCpus : ℕ
  sysMask : MuCpuset
  coreMasksByCoreid : List MuCpuset
  coreMasksByCpuid : List (Option ℕ)
  nodeMasks : List MuCpuset
deriving DecidableEq

/-- The sizes that the `mu_*` functions work with while the topology is not known yet. -/
def systemOf (sysMask : CpuSet) : System where
  sysMask := sysMask
  cores := []
  disjoint := List.Pairwise.nil
  covered := nofun

variable (ncpus : ℕ) (S : System)

/-- `mu_cpuset_from_glibc_sched_affinity` -/
def muCpusetFromGlibcSchedAffinity (cpuSet : CpuSet) : MuCpuset where
  set := {c ∈ cpuSet | c < S.bits}
  count := toCpuid ncpus (muCount S cpuSet)
  firstCpuid := toCpuid ncpus ((muGetFirstCpu S cpuSet).elim (-1) (↑))
  lastCpuid := toCpuid ncpus ((muGetLastCpu S cpuSet).elim (-1) (↑))

/-- `mu_equal` -/
def muEqual (mask1 mask2 : CpuSet) : Bool := {c ∈ mask1 | c < S.bits} = {c ∈ mask2 | c < S.bits}

/-- `cmp_mu_cpuset` -/
def cmpMuCpuset (a b : MuCpuset) : ℤ :=
  if a.count = 0 then 1 else if b.count = 0 then -1 else (a.firstCpuid : ℤ) - b.firstCpuid

/-- The table with room for `n` masks. -/
def growMasks (masks : List MuCpuset) (n : ℕ) : List MuCpuset :=
  masks ++ List.replicate (n - masks.length) (muCpusetFromGlibcSchedAffinity ncpus S ∅)

/-- One directory of a CPU. The search for a free slot looks at the whole table, because the mask may have been stored
under another core id before. -/
def saveCore (t : CoreTable) (d : CpuDir) : CoreTable :=
  let masks := growMasks ncpus S t.coreMasks (d.coreId + 1)
  let mask := muCpusetFromGlibcSchedAffinity ncpus S d.siblings
  match masks[d.coreId]? with
  | none => t
  | some core =>
    if core.count = 0 then { t with coreMasks := masks.set d.coreId mask }
    else if muEqual S core.set d.siblings then { t with coreMasks := masks }
    else if masks.any fun core => core.count ≠ 0 && muEqual S core.set d.siblings then { t with coreMasks := masks }
    else
      match masks.findIdx? (·.count = 0) with
      | some newCoreid => ⟨masks.set newCoreid mask, true⟩
      | none => ⟨masks ++ [mask], true⟩

/-- The loop over the directories of the CPUs, and the reordering after it. -/
def parseCores (Q : Lib.StrictQsort) (dirs : List CpuDir) : List MuCpuset :=
  let t := dirs.foldl (saveCore ncpus S) ⟨[], false⟩
  if t.needsReordering then Q.sort cmpMuCpuset t.coreMasks else t.coreMasks

def visitFrom (set : CpuSet) (cpuid : ℕ) : List ℕ :=
  if cpuid = dlbCpuidInvalid ncpus then []
  else
    match _h : muGetNextCpu S set cpuid with
    | some next => cpuid :: visitFrom set next
    | none => [cpuid]
termination_by S.bits - cpuid
decreasing_by
  have := muGetNextCpu_after S _h
  omega

/-- The references to the core masks, indexed by CPU id. -/
def referCores (coreId : ℕ) (byCpuid : List (Option ℕ)) : List MuCpuset → List (Option ℕ)
  | [] => byCpuid
  | core :: cores =>
    referCores (coreId + 1)
      ((visitFrom ncpus S core.set core.firstCpuid).foldl (fun byCpuid c => byCpuid.set c (some coreId)) byCpuid) cores

def saveNode (masks : List MuCpuset) (d : NodeDir) : List MuCpuset :=
  if 0 < d.cpulist.card then
    (growMasks ncpus S masks (d.nodeId + 1)).set d.nodeId (muCpusetFromGlibcSchedAffinity ncpus S d.cpulist)
  else masks

/-- The loop over the directories of the NUMA nodes; a large node id is fatal (`none`). -/
def parseNodes (dirs : List NodeDir) : Option (List MuCpuset) :=
  dirs.foldlM (fun masks d => if 1024 < d.nodeId then none else some (saveNode ncpus S masks d)) []

/-- The CPUs of one of `n` equal parts of the system. -/
def partMask (numCpus n id : ℕ) : CpuSet := Finset.Ico (id * (numCpus / n)) ((id + 1) * (numCpus / n))

/-- `init_system`, with `init_system_masks` -/
def initSystem (numCpus numCores numNodes : ℕ) : SysLoc :=
  let S := systemOf (Finset.range numCpus)
  let coreMasks := (List.range numCores).map fun i => muCpusetFromGlibcSchedAffinity ncpus S (partMask numCpus numCores i)
  { numCpus := S.size
    sysMask :=
      { set := {c ∈ S.sysMask | c < S.bits}
        count := toCpuid ncpus (muCount S S.sysMask)
        firstCpuid := 0
        lastCpuid := toCpuid ncpus ((S.size : ℤ) - 1) }
    coreMasksByCoreid := coreMasks
    coreMasksByCpuid := referCores ncpus S 0 (List.replicate S.size none) coreMasks
    nodeMasks := (List.range numNodes).map fun i =>
      muCpusetFromGlibcSchedAffinity ncpus S (partMask numCpus numNodes i) }

/-- `parse_system_files`: the mask of the CPUs that are present, the directories in the order of `readdir`, and what
`sysconf` says when there is no such mask; `none` is a fatal error. -/
def parseSystemFiles (Q : Lib.StrictQsort) (present : CpuSet) (cpuDirs : List CpuDir) (nodeDirs : List NodeDir)
    (nprocOnln : ℕ) : Option SysLoc := do
  let S := systemOf present
  let sysMask := muCpusetFromGlibcSchedAffinity ncpus S present
  let coreMasks := parseCores ncpus S Q cpuDirs
  let nodeMasks ← parseNodes ncpus S nodeDirs
  if sysMask.count = 0 then
    if nprocOnln = 0 then none else some (initSystem ncpus nprocOnln nprocOnln 1)
  else
    some
      { numCpus := S.size
        sysMask := sysMask
        coreMasksByCoreid := coreMasks
        coreMasksByCpuid := referCores ncpus S 0 (List.replicate S.size none) coreMasks
        nodeMasks := nodeMasks }

end Dlb

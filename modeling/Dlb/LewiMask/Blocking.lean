import Dlb.Cpuinfo.Async
import Dlb.Support.MaskText

/-!
# Blocking calls of LeWI mask

`lewi_mask_IntoBlockingCall` and `lewi_mask_OutOfBlockingCall` of `lewi_mask.c`, of a release build. A thread that enters
a blocking call lends the CPUs of its affinity mask, less its first core if the process keeps one for each thread, and
asks for them again when it leaves. `in_mpi_cpus` has the CPUs of the threads that are inside. The callbacks to the
thread manager are left out; the returns of CPUs that other processes are told to leave follow later, as for every
operation on cpuinfo.
-/

namespace Dlb.LewiMask

open Cpuinfo

/-- The masks of `lewi_info_t`. -/
structure LewiInfo where
  pendingReclaimedCpus : CpuSet := ∅
  inMpiCpus : CpuSet := ∅

/-- What blocking calls read of the subprocess descriptor. -/
structure Spd where
  id : Pid
  processMask : CpuSet
  lewiKeepCpuOnBlockingCall : Bool

/-- The node, and the private data of the process. -/
structure MaskNode where
  node : AsyncNode := {}
  lewiInfo : LewiInfo := {}

variable (S : System) (spd : Spd) (c : Caller) (s : MaskNode)

/-- `get_mask_for_blocking_call` of a thread with affinity mask `cpuSet`. -/
def getMaskForBlockingCall (keepCpuOnBlockingCall : Bool) (cpuSet : CpuSet) : CpuSet :=
  if keepCpuOnBlockingCall then
    match (muCpus S cpuSet).head? with
    | some firstCpuid => muSubtract S cpuSet cpuSet (Cpuinfo.coreMask S firstCpuid)
    | none => cpuSet
  else cpuSet

namespace MaskNode

/-- `in_mpi_cpus` is written. -/
def setInMpi (mask : CpuSet) : MaskNode := { s with lewiInfo := { s.lewiInfo with inMpiCpus := mask } }

/-- `pending_reclaimed_cpus` is written. -/
def setPending (mask : CpuSet) : MaskNode := { s with lewiInfo := { s.lewiInfo with pendingReclaimedCpus := mask } }

/-- A call to cpuinfo, with the returns that follow it. -/
def call (call : Call) : MaskNode := { s with node := s.node.perform S c spd.id (.lewi call) }

/-- `lewi_mask_LendCpuMask` -/
def lewiMaskLendCpuMask (mask : CpuSet) : MaskNode × DlbError :=
  ((s.call S spd c (.lendCpuMask mask)).setPending
    (muSubtract S s.lewiInfo.pendingReclaimedCpus s.lewiInfo.pendingReclaimedCpus mask), .success)

/-- `lewi_mask_IntoBlockingCall` of a thread with affinity mask `affinity`. -/
def lewiMaskIntoBlockingCall (affinity : CpuSet) : MaskNode × DlbError :=
  let cpuSet := getMaskForBlockingCall S spd.lewiKeepCpuOnBlockingCall affinity
  if muIntersects S s.lewiInfo.inMpiCpus cpuSet then (s, .noupdt)
  else if 0 < muCount S cpuSet then
    (s.setInMpi (muOr S s.lewiInfo.inMpiCpus s.lewiInfo.inMpiCpus cpuSet)).lewiMaskLendCpuMask S spd c cpuSet
  else (s, .noupdt)

def acquireOwned (ownedCpus : CpuSet) : MaskNode × DlbError :=
  let cpuSubset := muCpus S ownedCpus
  (s.call S spd c (.acquireFromCpuSubset cpuSubset), (shmemAcquireFromCpuSubset S s.node.shm spd.id cpuSubset).2)

/-- The CPUs that are not owned and not disabled are borrowed. If that fails, they are pending. -/
def borrowNonOwned (nonOwnedCpus : CpuSet) : MaskNode × DlbError :=
  let cpus := {cpuid ∈ nonOwnedCpus | (s.node.shm.nodeInfo cpuid).state ≠ .disabled}
  let cpuSubset := muCpus S cpus
  let error := (shmemBorrowFromCpuSubset S s.node.shm spd.id cpuSubset).2
  let s1 := s.call S spd c (.borrowFromCpuSubset cpuSubset)
  (if error = .success then s1
    else s1.setPending (muOr S s.lewiInfo.pendingReclaimedCpus s.lewiInfo.pendingReclaimedCpus cpus), error)

/-- `lewi_mask_OutOfBlockingCall` of a thread with affinity mask `affinity`. -/
def lewiMaskOutOfBlockingCall (affinity : CpuSet) : MaskNode × DlbError :=
  let cpuSet := getMaskForBlockingCall S spd.lewiKeepCpuOnBlockingCall affinity
  if !muIsSubset S s.lewiInfo.inMpiCpus cpuSet then (s, .noupdt)
  else if 0 < muCount S s.lewiInfo.inMpiCpus then
    let s1 := s.setInMpi (muSubtract S s.lewiInfo.inMpiCpus s.lewiInfo.inMpiCpus cpuSet)
    let ownedCpus := muAnd S ∅ cpuSet spd.processMask
    let nonOwnedCpus := muSubtract S ∅ cpuSet spd.processMask
    if 0 < muCount S ownedCpus then s1.acquireOwned S spd c ownedCpus
    else if 0 < muCount S nonOwnedCpus then s1.borrowNonOwned S spd c nonOwnedCpus
    else (s1, .noupdt)
  else (s, .noupdt)

end MaskNode

/-! ## Threads -/

/-- A process and the affinity masks of its threads, which are disjoint and inside the process mask. A `cpu_set_t` holds
all CPUs of the system. -/
structure Threads (S : System) (τ : Type*) extends Spd where
  affinity : τ → CpuSet
  id_ne : id ≠ 0
  cpuSet : S.size ≤ cpuSetsize
  system : processMask ⊆ S.sysMask
  inside : ∀ t, affinity t ⊆ processMask
  disjoint : ∀ t t', t ≠ t' → Disjoint (affinity t) (affinity t')

def Threads.blocking {τ : Type*} {S : System} (T : Threads S τ) (t : τ) : CpuSet :=
  getMaskForBlockingCall S T.lewiKeepCpuOnBlockingCall (T.affinity t)

/-- The node, and which threads of the process are inside a blocking call. -/
structure BlockingState (τ : Type*) where
  mask : MaskNode := {}
  inside : τ → Bool := fun _ => false

/-- An event of the node, or a blocking call of a thread. -/
inductive BlockingEvent (τ : Type*) where
  | node (e : Event)
  | into (c : Caller) (t : τ)
  | outOf (c : Caller) (t : τ)

def isActive : Phase → Bool
  | .active _ => true
  | _ => false

/-- `lewi_mask_Init` of the process makes a new `lewi_info_t`. -/
def resetsInfo (id : Pid) (phase : Phase) : Event → Bool
  | .op _ q op@(.lewiInit _) => q = id ∧ op.allowed phase
  | _ => false

namespace BlockingState

variable {τ : Type*} [DecidableEq τ] {S : System} (T : Threads S τ) (s : BlockingState τ)

/-- The threads of an active process alternate between the two calls; a call at another time does nothing. -/
def next : BlockingEvent τ → BlockingState τ
  | .node e =>
    { s with
      mask :=
        { node := s.mask.node.next S e
          lewiInfo := if resetsInfo T.id (s.mask.node.phase T.id) e then {} else s.mask.lewiInfo } }
  | .into c t =>
    if isActive (s.mask.node.phase T.id) ∧ s.inside t = false then
      { mask := (s.mask.lewiMaskIntoBlockingCall S T.toSpd c (T.affinity t)).1
        inside := Function.update s.inside t true }
    else s
  | .outOf c t =>
    if isActive (s.mask.node.phase T.id) ∧ s.inside t = true then
      { mask := (s.mask.lewiMaskOutOfBlockingCall S T.toSpd c (T.affinity t)).1
        inside := Function.update s.inside t false }
    else s

end BlockingState

end Dlb.LewiMask

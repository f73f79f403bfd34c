import Dlb.Cpuinfo.Shmem
import Dlb.Lib.Qsort
import Dlb.Support.Atomic
import Dlb.Support.MaskText

/-!
# Free agent threads

`omptm_free_agents.c`: free agents are bound to CPUs when they start, and the callbacks of LeWI enable and disable them.
The lists of their CPUs are filled one by one. A missing CPU, `-1`, is `none`, also as an index of an array; glibc leaves
a mask alone if it is asked for that CPU.

The calls of LeWI are left out: what it answers is an argument (`Answers`), and what it does about them are later
callbacks. Each function that is an event returns the CPU ids that index `cpu_data` or go to LeWI.
-/

namespace Dlb.Omptm

/-- The bits of `cpu_state_t`. `CPU_STATE_UNKNOWN` has none. -/
inductive CpuFlag where
  | idle | lent | reclaimed | inParallel | freeAgentEnabled
deriving DecidableEq

/-- The bits of `openmp_roles_t`. -/
inductive OpenmpRole where
  | primary | worker | freeAgent
deriving DecidableEq

/-- `cpu_data_t` -/
structure FreeAgents.CpuData where
  roles : Finset OpenmpRole := ∅
  state : Finset CpuFlag := ∅
  wantedForParallel : Bool := false

/-- What `omptm_free_agents__init` sets and none of the events changes. The CPUs of the process are of the system. -/
structure FreeAgentOptions (S : System) where
  lewi : Bool
  lend : Bool
  pid : Pid
  numFreeAgents : ℕ
  processMask : CpuSet
  fits : ∀ c ∈ processMask, c < S.size
  defaultNumThreads : ℤ

/-- The static variables, and the status of each free agent that the OpenMP runtime was told last. -/
structure FreeAgents where
  pendingTasks : ℕ := 0
  numEnabledFreeAgents : ℤ := 0
  freeAgentIdByCpuid : Option ℕ → Option ℕ := fun _ => none
  freeAgentCpuidById : ℕ → Option ℕ := fun _ => none
  freeAgentCpuList : List (Option ℕ)
  cpuData : Option ℕ → FreeAgents.CpuData
  activeStatus : ℕ → Bool := fun _ => false

variable {S : System}

namespace FreeAgentOptions

variable (o : FreeAgentOptions S)

/-- `encountered_cpus - 1` when `omptm_free_agents__init` comes to a CPU of the process. -/
def rank (c : ℕ) : ℤ := {c' ∈ o.processMask | c' < c}.card

/-- `primary_thread_mask` -/
def primaryThreadMask : CpuSet := {c ∈ o.processMask | o.rank c = 0}

/-- `worker_threads_mask` -/
def workerThreadsMask : CpuSet := {c ∈ o.processMask | o.rank c ≠ 0 ∧ o.rank c < o.defaultNumThreads}

/-- The data of a CPU after `omptm_free_agents__init`. It leaves those of the process that are neither of the primary
thread nor of a worker as `malloc` has left them. -/
def initialCpu (malloc : Option ℕ → FreeAgents.CpuData) (cpuid : Option ℕ) : FreeAgents.CpuData :=
  match cpuid with
  | none => malloc none
  | some c =>
    if c ∈ o.primaryThreadMask then { roles := {.primary}, state := {.inParallel} }
    else if c ∈ o.workerThreadsMask then { roles := {.worker}, state := {.idle} }
    else if c ∈ o.processMask then { malloc (some c) with wantedForParallel := false }
    else {}

/-- `omptm_free_agents__init` up to its last call, `omptm_free_agents__lend`. -/
def init (malloc : Option ℕ → FreeAgents.CpuData) : FreeAgents where
  freeAgentCpuList := List.replicate o.numFreeAgents none
  cpuData := o.initialCpu malloc

/-- The loops of `get_free_agent_binding`, which end at the system size if they find no CPU. -/
def nthCpu (mask : CpuSet) (n : ℕ) : ℕ := ((List.range S.size).filter (· ∈ mask)).getD n S.size

/-- `available_process_cpus`. What it has beyond the words of the system is not read. -/
def availableProcessCpus : CpuSet :=
  let available := muSubtract S ∅ o.processMask o.primaryThreadMask
  muSubtract S available available o.workerThreadsMask

end FreeAgentOptions

def nonOwnedCpuList (d : Cpuinfo.Shdata) (pid : Pid) : List ℕ :=
  (List.range S.size).filter fun c => (d.nodeInfo c).owner ≠ pid ∧ (d.nodeInfo c).state ≠ .disabled

/-- `shmem_cpuinfo__get_number_of_non_owned_cpus` -/
def getNumberOfNonOwnedCpus (d : Cpuinfo.Shdata) (pid : Pid) : ℕ := (nonOwnedCpuList (S := S) d pid).length

/-- `shmem_cpuinfo__get_nth_non_owned_cpu` -/
def getNthNonOwnedCpu (d : Cpuinfo.Shdata) (pid : Pid) (nthCpu : ℕ) : Option ℕ :=
  let nonOwned := nonOwnedCpuList (S := S) d pid
  let idx := match (List.range S.size).find? fun c => (d.nodeInfo c).owner = pid with
    | some first => (nonOwned.filter (· < first)).length
    | none => 0
  -- the nth element starting from the first owned CPU
  if nthCpu < nonOwned.length then nonOwned[(idx + nthCpu) % nonOwned.length]? else none

/-- `get_free_agent_binding`. The shared memory is read twice. -/
def FreeAgentOptions.getFreeAgentBinding (o : FreeAgentOptions S) (threadId : ℕ) (d1 d2 : Cpuinfo.Shdata) : Option ℕ :=
  let available := muCount S o.availableProcessCpus
  if threadId < available then some (nthCpu (S := S) o.availableProcessCpus threadId)
  else
    let nonOwned := getNumberOfNonOwnedCpus (S := S) d1 o.pid
    if threadId < nonOwned + available then getNthNonOwnedCpu (S := S) d2 o.pid (threadId - available)
    else if threadId < nonOwned + available + o.workerThreadsMask.card then
      some (nthCpu (S := S) o.workerThreadsMask (threadId - nonOwned - available))
    else none

/-! ## The order of the CPUs -/

/-- `mu_get_core_id`, also of no CPU. -/
def coreIdOf (S : System) (cpuid : Option ℕ) : ℤ := (cpuid.bind (muGetCoreId S)).elim (-1) (↑)

/-- `cmp_cpuids` -/
def cmpCpuids (S : System) (cpuid1 cpuid2 : Option ℕ) : ℤ :=
  if coreIdOf S cpuid1 = coreIdOf S cpuid2 then cpuid1.elim (-1) (↑) - cpuid2.elim (-1) (↑)
  else coreIdOf S cpuid1 - coreIdOf S cpuid2

/-- `mu_cmp_cpuids_by_ownership` -/
def muCmpCpuidsByOwnership (S : System) (processMask : CpuSet) (cpuid1 cpuid2 : Option ℕ) : ℤ :=
  let owned (cpuid : Option ℕ) : Bool := cpuid.any (· ∈ processMask)
  if owned cpuid1 then
    if owned cpuid2 then cmpCpuids S cpuid1 cpuid2 else -1
  else if owned cpuid2 then 1
  else
    let firstCpu := muGetFirstCpu S processMask
    let firstCore := coreIdOf S firstCpu
    let cpu1CoreId := coreIdOf S cpuid1
    let cpu2CoreId := coreIdOf S cpuid2
    if firstCore < cpu1CoreId ∧ firstCore < cpu2CoreId ∨ cpu1CoreId < firstCore ∧ cpu2CoreId < firstCore then
      cmpCpuids S cpuid1 cpuid2
    else cmpCpuids S firstCpu cpuid1

namespace FreeAgents

variable (o : FreeAgentOptions S) (Q : Lib.Qsort) (s : FreeAgents)

def setState (cpuid : Option ℕ) (state : Finset CpuFlag) : FreeAgents :=
  { s with cpuData := Function.update s.cpuData cpuid { s.cpuData cpuid with state := state } }

/-- `__kmp_set_free_agent_thread_active_status` -/
def setActiveStatus (threadNum : ℕ) (active : Bool) : FreeAgents :=
  { s with activeStatus := Function.update s.activeStatus threadNum active }

/-- `free_agent_lists_register` -/
def register (threadId c : ℕ) : FreeAgents :=
  let i := s.freeAgentCpuList.findIdx (· = none)
  let cpuList := s.freeAgentCpuList.set i (some c)
  { s with
    freeAgentIdByCpuid := Function.update s.freeAgentIdByCpuid (some c) (some threadId)
    freeAgentCpuidById := Function.update s.freeAgentCpuidById threadId (some c)
    freeAgentCpuList :=
      Q.sort (muCmpCpuidsByOwnership S o.processMask) (cpuList.take (i + 1)) ++ cpuList.drop (i + 1) }

/-! ## The callbacks of LeWI -/

/-- The last step of `cb_enable_cpu`: the free agent is enabled if it is not already. -/
def enableFreeAgent (cpuid : Option ℕ) (freeAgentId : ℕ) : FreeAgents :=
  let r := testSetClearBit (s.cpuData cpuid).state {.freeAgentEnabled} {.idle}
  if r.2 then
    { (s.setState cpuid r.1).setActiveStatus freeAgentId true with numEnabledFreeAgents := s.numEnabledFreeAgents + 1 }
  else s

/-- `cb_enable_cpu` -/
def cbEnableCpu (cpuid : Option ℕ) : FreeAgents :=
  let cpu := s.cpuData cpuid
  if cpu.wantedForParallel then s
  else if (casBit cpu.state {.reclaimed} {.idle}).2 then s.setState cpuid (casBit cpu.state {.reclaimed} {.idle}).1
  else
    match s.freeAgentIdByCpuid cpuid with
    -- probably too early: the CPU is lent
    | none => s
    | some freeAgentId => s.enableFreeAgent cpuid freeAgentId

/-- The CPU is not needed: `cb_disable_cpu` sets it idle. -/
def idleIfUnneeded (cpuid : Option ℕ) : FreeAgents :=
  if cpuid.any (· ∈ o.processMask) ∧ !(s.cpuData cpuid).wantedForParallel then
    s.setState cpuid (setBit (s.cpuData cpuid).state {.idle}).1
  else s

/-- The last step of `cb_disable_cpu`: the free agent of the CPU is disabled if it is enabled. -/
def disableFreeAgent (cpuid : Option ℕ) (freeAgentId : ℕ) : FreeAgents :=
  let r := clearBit (s.cpuData cpuid).state {.freeAgentEnabled}
  if r.2 then
    { (s.setState cpuid r.1).setActiveStatus freeAgentId false with numEnabledFreeAgents := s.numEnabledFreeAgents - 1 }
  else s

/-- `cb_disable_cpu` -/
def cbDisableCpu (cpuid : Option ℕ) : FreeAgents :=
  match s.freeAgentIdByCpuid cpuid with
  -- probably too late
  | none => s
  | some freeAgentId => (s.idleIfUnneeded o cpuid).disableFreeAgent cpuid freeAgentId

/-! ## Lending, and the search for a free agent -/

/-- A loop that exchanges a flag of each of the CPUs. The CPUs where it succeeds are collected. -/
def casCpus (cpus : CpuSet) (expected desired : Finset CpuFlag) : FreeAgents × CpuSet :=
  ({ s with cpuData := fun cpuid =>
      if cpuid.any (· ∈ cpus) then
        { s.cpuData cpuid with state := (casBit (s.cpuData cpuid).state expected desired).1 }
      else s.cpuData cpuid },
    {c ∈ cpus | (casBit (s.cpuData (some c)).state expected desired).2})

/-- `omptm_free_agents__lend`: the new state, and the mask that it lends. Its local mask starts as `junk`. -/
def omptmFreeAgentsLend (junk : CpuSet) : FreeAgents × CpuSet :=
  if o.lewi ∧ o.lend then
    let r := s.casCpus o.workerThreadsMask {.idle} {.lent}
    (r.1, junk ∪ r.2)
  else (s, ∅)

/-- The loop of `acquire_one_free_agent`: the CPU ids that it visits, the idle one where it stops, and the CPUs to ask
for. -/
def lookForIdle : List (Option ℕ) → CpuSet → List (Option ℕ) × Option (Option ℕ) × CpuSet
  | [], cpusToAsk => ([], none, cpusToAsk)
  | cpuid :: rest, cpusToAsk =>
    let cpuState := (s.cpuData cpuid).state
    if (cpuState ∩ {.inParallel, .freeAgentEnabled}).Nonempty then
      let r := lookForIdle rest cpusToAsk
      (cpuid :: r.1, r.2)
    else if cpuState = {.idle} then ([cpuid], some cpuid, ∅)
    else
      let r := lookForIdle rest (cpuid.elim cpusToAsk fun c => insert c cpusToAsk)
      (cpuid :: r.1, r.2)

/-- `acquire_one_free_agent` -/
def acquireOneFreeAgent : FreeAgents × Finset (Option ℕ) :=
  if s.numEnabledFreeAgents = o.numFreeAgents then (s, ∅)
  else
    let r := s.lookForIdle s.freeAgentCpuList ∅
    (r.2.1.elim s s.cbEnableCpu, r.1.toFinset ∪ if o.lewi then r.2.2.image some else ∅)

/-! ## Events of the OpenMP runtime -/

/-- `omptm_free_agents__thread_begin` of a free agent -/
def threadBegin (threadId : ℕ) (d1 d2 : Cpuinfo.Shdata) : FreeAgents × Finset (Option ℕ) :=
  match o.getFreeAgentBinding threadId d1 d2 with
  | none => (s, ∅)
  | some c =>
    let s := s.register o Q threadId c
    let cpu := s.cpuData (some c)
    let cpu := { cpu with roles := insert .freeAgent cpu.roles }
    (({ s with cpuData := Function.update s.cpuData (some c) cpu }).setActiveStatus threadId false, {some c})

/-- `omptm_free_agents__parallel_begin`, for one CPU of the process. The second part are the CPUs to reclaim. -/
def wantForParallel (r : FreeAgents × CpuSet) (c : ℕ) : FreeAgents × CpuSet :=
  let cpu := r.1.cpuData (some c)
  let s := { r.1 with cpuData := Function.update r.1.cpuData (some c) { cpu with wantedForParallel := true } }
  if .freeAgentEnabled ∈ cpu.state then (s.cbDisableCpu o (some c), r.2)
  else if .lent ∈ cpu.state then (s, insert c r.2)
  else (s, r.2)

/-- `omptm_free_agents__parallel_begin` -/
def parallelBegin (level requestedParallelism : ℕ) : FreeAgents × Finset (Option ℕ) :=
  if level = 1 ∧ requestedParallelism = o.processMask.card then
    let cpus := (List.range S.size).filter (· ∈ o.processMask)
    let r := cpus.foldl (wantForParallel o) (s, ∅)
    (r.1, (cpus.toFinset ∪ r.2).image some)
  else (s, ∅)

def cpusOfRole (role : OpenmpRole) : CpuSet := {c ∈ Finset.range S.size | role ∈ (s.cpuData (some c)).roles}

/-- The loop of `omptm_free_agents__parallel_end`: all workers in parallel go to idle. -/
def workersToIdle : FreeAgents :=
  let workers := s.cpusOfRole (S := S) .worker
  let s := (s.casCpus workers {.inParallel} {.idle}).1
  { s with cpuData := fun cpuid =>
      if cpuid.any (· ∈ workers) then { s.cpuData cpuid with wantedForParallel := false } else s.cpuData cpuid }

/-- `omptm_free_agents__parallel_end` -/
def parallelEnd (level : ℕ) (junk : CpuSet) : FreeAgents × Finset (Option ℕ) :=
  if level = 1 then
    let r := (s.workersToIdle (S := S)).omptmFreeAgentsLend o junk
    (r.1, (Finset.range S.size ∪ r.2).image some)
  else (s, ∅)

/-- `omptm_free_agents__into_parallel_function` of a thread that is bound to a CPU -/
def intoParallelFunction (level : ℕ) (c : ℕ) : FreeAgents × Finset (Option ℕ) :=
  if level = 1 then (s.setState (some c) (setBit (s.cpuData (some c)).state {.inParallel}).1, {some c}) else (s, ∅)

/-- The CPUs that blocking calls lend and reclaim: those of the process with a worker or a free agent. -/
def blockingCpus : CpuSet := {c ∈ o.processMask | OpenmpRole.worker ∈ (s.cpuData (some c)).roles ∨
  OpenmpRole.freeAgent ∈ (s.cpuData (some c)).roles}

/-- The loops of `omptm_free_agents__IntoBlockingCall` and `omptm_free_agents__OutOfBlockingCall` -/
def blockingCall (expected desired : Finset CpuFlag) : FreeAgents × Finset (Option ℕ) :=
  ((s.casCpus (s.blockingCpus o) expected desired).1, (Finset.range S.size).image some)

/-- `omptm_free_agents__IntoBlockingCall` -/
def intoBlockingCall : FreeAgents × Finset (Option ℕ) :=
  if o.lewi then s.blockingCall o {.idle} {.lent} else (s, ∅)

/-- `omptm_free_agents__OutOfBlockingCall` -/
def outOfBlockingCall : FreeAgents × Finset (Option ℕ) :=
  if o.lewi ∧ !o.lend then s.blockingCall o {.lent} {.reclaimed} else (s, ∅)

/-- `omptm_free_agents__task_create` -/
def taskCreate : FreeAgents × Finset (Option ℕ) :=
  { s with pendingTasks := addU32 s.pendingTasks 1 }.acquireOneFreeAgent o

/-- What LeWI answers to `omptm_free_agents__task_complete`: `DLB_CheckCpuAvailability` and `DLB_ReturnCpu`, as a test
for `DLB_ERR_PERM`. -/
structure Answers where
  reclaimed : Bool
  returnRefused : Bool

/-- `omptm_free_agents__task_complete` of a thread with the given `__free_agent_id` -/
def taskComplete (freeAgentId : Option ℕ) (a : Answers) : FreeAgents × Finset (Option ℕ) :=
  match freeAgentId with
  | none => (s, ∅)
  | some freeAgentId =>
    let cpuid := s.freeAgentCpuidById freeAgentId
    let s1 :=
      -- this CPU is needed for a worker thread
      if .inParallel ∈ (s.cpuData cpuid).state ∨ (s.cpuData cpuid).wantedForParallel then s.cbDisableCpu o cpuid
      else if a.reclaimed then if a.returnRefused then s.cbDisableCpu o cpuid else s
      -- no more tasks
      else if s.pendingTasks = 0 then s.cbDisableCpu o cpuid
      else s
    (s1, {cpuid})

/-- `omptm_free_agents__task_switch` -/
def taskSwitch : FreeAgents × Finset (Option ℕ) :=
  let s1 := { s with pendingTasks := subU32 s.pendingTasks 1 }
  if 1 < s.pendingTasks then s1.acquireOneFreeAgent o else (s1, ∅)

end FreeAgents

end Dlb.Omptm

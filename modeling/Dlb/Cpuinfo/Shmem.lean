import Dlb.Lib.Run
import Dlb.Support.MaskUtils
import Dlb.Support.QueueTemplate
import Dlb.Support.Types

/-!
# The cpuinfo shared memory

`shmem_cpuinfo.c`: who owns and who uses each CPU of the node. `free_cpus` and `occupied_cores` are redundant copies
that speed up queries. Every operation runs under the lock of the shared memory, so an operation is a function from
state to state; what two of them read before they take the lock is an argument (`Unlocked`).

`mu_get_core_mask` of a CPU id that is of no core is a null pointer, which the source does not expect; here such a CPU
has an empty core.
-/

namespace Dlb.Cpuinfo

/-! ## The shared data -/

/-- `cpu_state_t` -/
inductive CpuState where
  | disabled | busy | lent
deriving DecidableEq, Repr

/-- `cpuinfo_t`. The ids are the index in the table and `mu_get_core_id` of it. -/
structure CpuInfo where
  owner : Pid := 0
  guest : Pid := 0
  state : CpuState := .disabled
  requests : Queue Pid := {}

/-- `QUEUE_SIZE` of the requests of a CPU. -/
def queuePidSize : ℕ := 8

/-- `lewi_mask_request_t` -/
structure LewiMaskRequest where
  pid : Pid
  howmany : ℕ
  allowed : CpuSet

/-- `QUEUE_SIZE` of the global requests. -/
def queueLewiMaskRequestSize : ℕ := 1024

/-- `cpuinfo_action_t` -/
inductive CpuinfoAction where
  | enableCpu | disableCpu
deriving DecidableEq, Repr

/-- `cpuinfo_task_t` -/
structure CpuinfoTask where
  action : CpuinfoAction
  pid : Pid
  cpuid : ℕ
deriving DecidableEq, Repr

/-- `shdata_t` with its flags, and the array of tasks that the call in progress fills. -/
structure Shdata where
  initialized : Bool := false
  queuesEnabled : Bool := false
  hwHasSmt : Bool := false
  timestampCpuLent : ℤ := 0
  lewiMaskRequests : Queue LewiMaskRequest := {}
  freeCpus : CpuSet := ∅
  occupiedCores : CpuSet := ∅
  nodeInfo : ℕ → CpuInfo := fun _ => {}
  tasks : List CpuinfoTask := []

/-- The static variables of the calling process, and its clock. -/
structure Caller where
  respectCpuset : Bool := true
  cpuIsPublicPostMortem : Bool := false
  now : ℤ := 0

namespace Shdata

variable (d : Shdata)

def set (cpuid : ℕ) (info : CpuInfo) : Shdata := { d with nodeInfo := Function.update d.nodeInfo cpuid info }

/-- `CPU_SET(cpuid, &shdata->free_cpus)` -/
def setFree (cpuid : ℕ) : Shdata := { d with freeCpus := insert cpuid d.freeCpus }

/-- `CPU_CLR(cpuid, &shdata->free_cpus)` -/
def clrFree (cpuid : ℕ) : Shdata := { d with freeCpus := d.freeCpus.erase cpuid }

/-- `array_cpuinfo_task_t_push` -/
def push (action : CpuinfoAction) (pid : Pid) (cpuid : ℕ) : Shdata :=
  { d with tasks := d.tasks ++ [⟨action, pid, cpuid⟩] }

/-- `update_shmem_timestamp` -/
def updateShmemTimestamp (now : ℤ) : Shdata := { d with timestampCpuLent := now }

end Shdata

variable (S : System)

/-! ## Cores -/

/-- The CPUs of the core of `cpuid`. -/
def coreMask (cpuid : ℕ) : CpuSet := (muGetCoreMask S cpuid).getD ∅

/-- `core_is_eligible` -/
def coreIsEligible (d : Shdata) (pid : Pid) (cpuid : ℕ) : Bool :=
  if d.hwHasSmt then
    ∀ c ∈ coreMask S cpuid, ¬(((d.nodeInfo c).guest ≠ pid ∧ (d.nodeInfo c).guest ≠ 0)
      ∨ ((d.nodeInfo c).state = .busy ∧ (d.nodeInfo c).owner ≠ pid))
  else (d.nodeInfo cpuid).owner = pid ∨ (d.nodeInfo cpuid).guest = pid ∨ (d.nodeInfo cpuid).guest = 0

/-- `core_is_occupied` -/
def coreIsOccupied (d : Shdata) (owner : Pid) (cpuid : ℕ) : Bool :=
  if owner = 0 then false
  else if d.hwHasSmt then ∃ c ∈ coreMask S cpuid, (d.nodeInfo c).guest ≠ 0 ∧ (d.nodeInfo c).guest ≠ owner
  else (d.nodeInfo cpuid).guest ≠ 0 ∧ (d.nodeInfo cpuid).guest ≠ owner

/-- `cpu_is_occupied` -/
def cpuIsOccupied (d : Shdata) (owner : Pid) (cpuid : ℕ) : Bool :=
  (d.nodeInfo cpuid).guest ≠ 0 ∧ owner ≠ 0 ∧ (d.nodeInfo cpuid).guest ≠ owner

/-- The new `occupied_cores` of `update_occupied_cores`. -/
def occupiedUpdate (d : Shdata) (owner : Pid) (cpuid : ℕ) : CpuSet :=
  if d.hwHasSmt then
    if cpuIsOccupied d owner cpuid then
      if cpuid ∉ d.occupiedCores then muOr S d.occupiedCores d.occupiedCores (coreMask S cpuid) else d.occupiedCores
    else if cpuid ∉ d.occupiedCores then d.occupiedCores
    -- need to check all CPUs of the core
    else if coreIsOccupied S d owner cpuid then muOr S d.occupiedCores d.occupiedCores (coreMask S cpuid)
    else muSubtract S d.occupiedCores d.occupiedCores (coreMask S cpuid)
  else if cpuIsOccupied d owner cpuid then insert cpuid d.occupiedCores
  else d.occupiedCores.erase cpuid

/-- `update_occupied_cores` -/
def updateOccupiedCores (d : Shdata) (owner : Pid) (cpuid : ℕ) : Shdata :=
  { d with occupiedCores := occupiedUpdate S d owner cpuid }

/-- `--(it->howmany)`; the request goes when it reaches `0`. -/
def useOne (request : LewiMaskRequest) : Option LewiMaskRequest :=
  let howmany := (request.howmany + (2 ^ 32 - 1)) % 2 ^ 32
  if howmany = 0 then none else some { request with howmany := howmany }

/-- Pop the first eligible pid of the requests of a CPU. -/
def popRequest (d : Shdata) (cpuid : ℕ) : Shdata × Pid :=
  let info := d.nodeInfo cpuid
  let r := Queue.take queuePidSize (coreIsEligible S d · cpuid) id (fun _ => none) queuePidSize
    info.requests.first info.requests
  (d.set cpuid { info with requests := r.1 }, r.2)

/-- Serve the first global request that allows the CPU and is eligible. -/
def popGlobalRequest (d : Shdata) (cpuid : ℕ) : Shdata × Pid :=
  let r := Queue.take queueLewiMaskRequestSize (fun it => cpuid ∈ it.allowed ∧ coreIsEligible S d it.pid cpuid)
    (·.pid) useOne queueLewiMaskRequestSize d.lewiMaskRequests.first d.lewiMaskRequests
  ({ d with lewiMaskRequests := r.1 }, r.2)

/-- `find_new_guest` -/
def findNewGuest (d : Shdata) (cpuid : ℕ) : Shdata × Pid :=
  if (d.nodeInfo cpuid).state = .busy then
    -- if CPU is claimed, ignore requests and assign owner
    (d, (d.nodeInfo cpuid).owner)
  else if d.queuesEnabled then
    let r := popRequest S d cpuid
    if r.2 = 0 then popGlobalRequest S r.1 cpuid else r
  else (d, 0)

/-! ## Register and deregister -/

/-- `register_cpu` -/
def registerCpu (pid preinitPid : Pid) (d : Shdata) (cpuid : ℕ) : Shdata :=
  let info := d.nodeInfo cpuid
  let guest := if info.guest = 0 ∨ info.guest = preinitPid then pid else info.guest
  let d1 := (d.set cpuid { info with owner := pid, state := .busy, guest := guest }).clrFree cpuid
  updateOccupiedCores S d1 pid cpuid

/-- An owned CPU of `deregister_cpu`. -/
def deregisterOwned (c : Caller) (d : Shdata) (pid : Pid) (cpuid : ℕ) : Shdata :=
  let info := d.nodeInfo cpuid
  let guest := if info.guest = pid then 0 else info.guest
  let d1 :=
    if c.cpuIsPublicPostMortem ∨ !c.respectCpuset then
      let d2 := d.set cpuid { info with owner := 0, guest := guest, state := .lent }
      if guest = 0 then d2.setFree cpuid else d2
    else (d.set cpuid { owner := 0, guest := guest, state := .disabled }).clrFree cpuid
  { d1 with occupiedCores := muSubtract S d1.occupiedCores d1.occupiedCores (coreMask S cpuid) }

/-- `deregister_cpu` -/
def deregisterCpu (c : Caller) (pid : Pid) (d : Shdata) (cpuid : ℕ) : Shdata :=
  let info := d.nodeInfo cpuid
  if info.owner = pid then deregisterOwned S c d pid cpuid
  else
    let d1 := if info.guest = pid then (d.set cpuid { info with guest := 0 }).setFree cpuid else d
    if d.queuesEnabled then
      let info1 := d1.nodeInfo cpuid
      d1.set cpuid { info1 with requests := info1.requests.remove queuePidSize (· = pid) }
    else d1

/-- `deregister_process` -/
def deregisterProcess (c : Caller) (d : Shdata) (pid : Pid) : Shdata :=
  let d1 := (List.range S.size).foldl (deregisterCpu S c pid) d
  if d1.queuesEnabled then
    { d1 with lewiMaskRequests := d1.lewiMaskRequests.remove queueLewiMaskRequestSize (·.pid = pid) }
  else d1

/-- `init_shmem` -/
def initShmem (c : Caller) (d : Shdata) : Shdata :=
  if d.initialized then d
  else
    { initialized := true
      hwHasSmt := muSystemHasSmt S
      freeCpus := if c.respectCpuset then ∅ else Finset.range S.size
      -- if the registered CPU set is not respected, all CPUs start as available
      nodeInfo := fun cpuid => if cpuid < S.size then { state := if c.respectCpuset then .disabled else .lent } else {} }

/-- The CPUs of a mask below `node_size`, in order. -/
def nodeCpus (mask : CpuSet) : List ℕ := (List.range S.size).filter (· ∈ mask)

/-- `register_process` -/
def registerProcess (d : Shdata) (pid preinitPid : Pid) (mask : CpuSet) (steal : Bool) : Shdata × DlbError :=
  if mask = ∅ then (d, .success)
  else if !steal ∧ ∃ cpuid ∈ nodeCpus S mask,
      (d.nodeInfo cpuid).owner ≠ 0 ∧ (d.nodeInfo cpuid).owner ≠ pid ∧ (d.nodeInfo cpuid).owner ≠ preinitPid then
    (d, .errPerm)
  else ((nodeCpus S mask).foldl (registerCpu S pid preinitPid) d, .success)

/-- `shmem_cpuinfo__finalize`, the part on the shared data. -/
def finalize (c : Caller) (d : Shdata) (pid : Pid) : Shdata :=
  (deregisterProcess S c d pid).updateShmemTimestamp c.now

/-- `shmem_cpuinfo__init` -/
def init (c : Caller) (d : Shdata) (pid preinitPid : Pid) (mask : CpuSet) : Shdata × DlbError :=
  let r := registerProcess S (initShmem S c d) pid preinitPid mask false
  if r.2 ≠ .success then (finalize S c r.1 pid, r.2) else r

/-! ## Lend -/

/-- The owner lends its CPU; another process takes back its request. -/
def lendOwned (d : Shdata) (pid : Pid) (cpuid : ℕ) : Shdata :=
  let info := d.nodeInfo cpuid
  if info.owner = pid then d.set cpuid { info with state := .lent }
  else if d.queuesEnabled then d.set cpuid { info with requests := info.requests.remove queuePidSize (· = pid) }
  else d

def leave (d : Shdata) (pid : Pid) (cpuid : ℕ) : Shdata :=
  let info := d.nodeInfo cpuid
  if info.guest = pid then d.set cpuid { info with guest := 0 } else d

/-- Find a new guest for a CPU and tell it, if there is one. -/
def assignGuest (d : Shdata) (cpuid : ℕ) : Shdata × Pid :=
  let r := findNewGuest S d cpuid
  if r.2 = 0 then r
  else ((r.1.set cpuid { r.1.nodeInfo cpuid with guest := r.2 }).push .enableCpu r.2 cpuid, r.2)

/-- The rest of the core of a CPU that `lend_cpu` gave to a new guest. -/
def assignRest (cpuid : ℕ) (d : Shdata) (c : ℕ) : Shdata :=
  if c ≠ cpuid ∧ (d.nodeInfo c).guest = 0 then
    let r := assignGuest S d c
    if r.2 = 0 then r.1 else r.1.clrFree c
  else d

/-- If the CPU is free, find a new guest; the CPU could have been the last lent one of its core. -/
def findGuests (d : Shdata) (cpuid : ℕ) : Shdata :=
  if (d.nodeInfo cpuid).guest = 0 then
    let r := assignGuest S d cpuid
    if r.2 = 0 then r.1 else (muCpus S (coreMask S cpuid)).foldl (assignRest S cpuid) r.1
  else d

/-- `lend_cpu` -/
def lendCpu (pid : Pid) (d : Shdata) (cpuid : ℕ) : Shdata :=
  if (d.nodeInfo cpuid).state = .disabled then d
  else
    let d1 := findGuests S (leave (lendOwned d pid cpuid) pid cpuid) cpuid
    let d2 := if (d1.nodeInfo cpuid).guest = 0 then d1.setFree cpuid else d1
    updateOccupiedCores S d2 (d2.nodeInfo cpuid).owner cpuid

/-- `shmem_cpuinfo__lend_cpu` -/
def shmemLendCpu (c : Caller) (d : Shdata) (pid : Pid) (cpuid : ℕ) : Shdata × DlbError :=
  if S.size ≤ cpuid then (d, .errPerm)
  else ((lendCpu S pid d cpuid).updateShmemTimestamp c.now, .success)

/-- `shmem_cpuinfo__lend_cpu_mask` -/
def shmemLendCpuMask (c : Caller) (d : Shdata) (pid : Pid) (mask : CpuSet) : Shdata × DlbError :=
  (((nodeCpus S mask).foldl (lendCpu S pid) d).updateShmemTimestamp c.now, .success)

/-! ## Reclaim -/

/-- The tasks of a CPU that its owner wants back from its guest. -/
def Shdata.recall (d : Shdata) (pid : Pid) (cpuid : ℕ) : Shdata :=
  (d.push .disableCpu (d.nodeInfo cpuid).guest cpuid).push .enableCpu pid cpuid

/-- `reclaim_cpu` -/
def reclaimCpu (pid : Pid) (d : Shdata) (cpuid : ℕ) : Shdata × DlbError :=
  let info := d.nodeInfo cpuid
  if info.owner = pid then
    if info.guest = pid then (d.set cpuid { info with state := .busy }, .noupdt)
    else if info.guest = 0 then
      -- the CPU was idle, acquire it
      (((d.set cpuid { info with state := .busy, guest := pid }).push .enableCpu pid cpuid).clrFree cpuid, .success)
    else
      -- the CPU was guested, reclaim it
      ((d.set cpuid { info with state := .busy }).recall pid cpuid, .noted)
  else (d, .errPerm)

/-- `DLB_SUCCESS` or `DLB_NOTED` -/
def done (error : DlbError) : Bool := error = .success ∨ error = .noted

/-- The code of a loop after a CPU, or a core, that was done with code `error'`. -/
def mergeDone (error error' : DlbError) : DlbError := if error = .noted then error else error'

/-- The loop of `reclaim_core`, `acquire_core` and `borrow_core` with their operation on one CPU: the code so far, and
how many CPUs were done. A CPU that is not, and that the process does not guest either, ends it. -/
def coreLoop (op : Shdata → ℕ → Shdata × DlbError) (pid : Pid) :
    List ℕ → Shdata → DlbError → ℕ → Shdata × DlbError × ℕ
  | [], d, error, n => (d, error, n)
  | c :: rest, d, error, n =>
    let r := op d c
    if done r.2 then coreLoop op pid rest r.1 (mergeDone error r.2) (n + 1)
    else if (r.1.nodeInfo c).guest = pid then coreLoop op pid rest r.1 error n
    else (r.1, error, n)

/-- The CPUs of a core given by its id; `none` is `-1`. -/
def coreCpus (coreId : Option ℕ) : List ℕ := muCpus S ((coreId.bind (muGetCoreMaskByCoreid S)).getD ∅)

/-- `reclaim_core` -/
def reclaimCore (pid : Pid) (d : Shdata) (coreId : Option ℕ) : Shdata × DlbError × ℕ :=
  coreLoop (reclaimCpu pid) pid (coreCpus S coreId) d .noupdt 0

/-- The code of `shmem_cpuinfo__reclaim_all` and `shmem_cpuinfo__reclaim_cpus` after one more CPU, or core. -/
def mergeReclaim (error error' : DlbError) : DlbError :=
  match error' with
  | .noted => .noted
  | .success => if error = .noted then .noted else .success
  | _ => error

/-- `shmem_cpuinfo__reclaim_all` -/
def shmemReclaimAll (d : Shdata) (pid : Pid) : Shdata × DlbError :=
  (muCpus S (d.freeCpus ∪ d.occupiedCores)).foldl (fun r cpuid =>
    if (r.1.nodeInfo cpuid).owner = pid ∧ (r.1.nodeInfo cpuid).guest ≠ pid then
      let r' := reclaimCpu pid r.1 cpuid
      (r'.1, mergeReclaim r.2 r'.2)
    else r) (d, .noupdt)

def disableRest (pid : Pid) (cpuid : ℕ) (d : Shdata) (c : ℕ) : Shdata :=
  if c ≠ cpuid ∧ (d.nodeInfo c).guest ≠ pid then d.push .disableCpu (d.nodeInfo c).guest c else d

/-- `shmem_cpuinfo__reclaim_cpu` -/
def shmemReclaimCpu (d : Shdata) (pid : Pid) (cpuid : ℕ) : Shdata × DlbError :=
  if S.size ≤ cpuid then (d, .errPerm)
  else
    let r := reclaimCpu pid d cpuid
    if r.2 = .noted ∧ r.1.hwHasSmt then
      ((muCpus S (coreMask S cpuid)).foldl (disableRest pid cpuid) r.1, r.2)
    else r

/-- The loop of `shmem_cpuinfo__reclaim_cpus` over the core ids. -/
def reclaimCores (pid : Pid) : List ℕ → Shdata → ℤ → DlbError → Shdata × DlbError
  | [], d, _, error => (d, error)
  | coreId :: rest, d, ncpus, error =>
    if ncpus ≤ 0 then (d, error)
    else
      let r := reclaimCore S pid d coreId
      reclaimCores pid rest r.1 (if done r.2.1 then ncpus - r.2.2 else ncpus) (mergeReclaim error r.2.1)

/-- `shmem_cpuinfo__reclaim_cpus` -/
def shmemReclaimCpus (d : Shdata) (pid : Pid) (ncpus : ℤ) : Shdata × DlbError :=
  reclaimCores S pid (List.range (muGetNumCores S)) d ncpus .noupdt

/-- The code of `shmem_cpuinfo__reclaim_cpu_mask` after one more CPU. -/
def mergeReclaimMask (error error' : DlbError) : DlbError :=
  match error' with
  | .errPerm => .errPerm
  | .noted => if error.code < 0 then error else .noted
  | .success => if error = .noupdt then .success else error
  | _ => error

/-- `shmem_cpuinfo__reclaim_cpu_mask` -/
def shmemReclaimCpuMask (d : Shdata) (pid : Pid) (mask : CpuSet) : Shdata × DlbError :=
  (nodeCpus S ((d.freeCpus ∪ d.occupiedCores) ∩ mask)).foldl (fun r cpuid =>
    let r' := reclaimCpu pid r.1 cpuid
    (r'.1, mergeReclaimMask r.2 r'.2)) (d, .noupdt)

/-! ## Acquire -/

/-- `if (!CPU_ISSET(cpuid, &shdata->occupied_cores)) update_occupied_cores(cpuinfo->owner, cpuinfo->id)` -/
def noteOccupied (d : Shdata) (cpuid : ℕ) : Shdata :=
  if cpuid ∉ d.occupiedCores then updateOccupiedCores S d (d.nodeInfo cpuid).owner cpuid else d

def noteOccupiedOwned (d : Shdata) (cpuid : ℕ) : Shdata :=
  if (d.nodeInfo cpuid).owner ≠ 0 then noteOccupied S d cpuid else d

/-- `acquire_cpu` -/
def acquireCpu (pid : Pid) (d : Shdata) (cpuid : ℕ) : Shdata × DlbError :=
  let info := d.nodeInfo cpuid
  if info.guest = pid then (d, .noupdt)
  else if info.owner = pid then
    if info.guest = 0 then
      -- CPU empty
      (((d.set cpuid { info with state := .busy, guest := pid }).push .enableCpu pid cpuid).clrFree cpuid, .success)
    else
      -- CPU needs to be reclaimed
      (noteOccupied S ((d.set cpuid { info with state := .busy }).recall pid cpuid) cpuid, .noted)
  else if info.guest = 0 ∧ info.state = .lent ∧ coreIsEligible S d pid cpuid then
    -- CPU is available
    ((noteOccupiedOwned S ((d.set cpuid { info with guest := pid }).push .enableCpu pid cpuid) cpuid).clrFree cpuid,
      .success)
  else if d.queuesEnabled then
    -- CPU is not available, add request
    match info.requests.enqueue queuePidSize pid with
    | some requests => (d.set cpuid { info with requests := requests }, .noted)
    | none => (d, .errReqst)
  else if info.state ≠ .disabled then (d, .noupdt)
  else (d, .errPerm)

/-- `acquire_core` -/
def acquireCore (pid : Pid) (d : Shdata) (coreId : Option ℕ) : Shdata × DlbError × ℕ :=
  coreLoop (acquireCpu S pid) pid (coreCpus S coreId) d .noupdt 0

/-- The loop of `acquire_cpus_in_array_cpuid_t`, `borrow_cpus_in_array_cpuid_t` and `borrow_cpus_in_cpu_set_t` with
their operations on one core and on one CPU: the code, and how many CPUs are still wanted. Consecutive CPUs of one core
are skipped. -/
def arrayLoop (core : Shdata → Option ℕ → Shdata × DlbError × ℕ) (op : Shdata → ℕ → Shdata × DlbError) :
    List ℕ → Option ℕ → Shdata → ℤ → DlbError → Shdata × DlbError × ℤ
  | [], _, d, ncpus, error => (d, error, ncpus)
  | c :: rest, prevCoreId, d, ncpus, error =>
    if ncpus ≤ 0 then (d, error, ncpus)
    else if d.hwHasSmt then
      if prevCoreId ≠ muGetCoreId S c then
        let r := core d (muGetCoreId S c)
        if done r.2.1 then arrayLoop core op rest (muGetCoreId S c) r.1 (ncpus - r.2.2) (mergeDone error r.2.1)
        else arrayLoop core op rest (muGetCoreId S c) r.1 ncpus error
      else arrayLoop core op rest prevCoreId d ncpus error
    else
      let r := op d c
      if done r.2 then arrayLoop core op rest prevCoreId r.1 (ncpus - 1) (mergeDone error r.2)
      else arrayLoop core op rest prevCoreId r.1 ncpus error

/-- `INT_MAX` -/
def intMax : ℤ := 2 ^ 31 - 1

/-- `acquire_cpus_in_array_cpuid_t` -/
def acquireCpusInArray (pid : Pid) (d : Shdata) (cpus : List ℕ) (ncpus : ℤ) : Shdata × DlbError × ℤ :=
  arrayLoop S (acquireCore S pid) (acquireCpu S pid) cpus none d ncpus .noupdt

/-- `shmem_cpuinfo__acquire_cpu` -/
def shmemAcquireCpu (d : Shdata) (pid : Pid) (cpuid : ℕ) : Shdata × DlbError :=
  if S.size ≤ cpuid then (d, .errPerm) else acquireCpu S pid d cpuid

/-- `shmem_cpuinfo__acquire_from_cpu_subset` -/
def shmemAcquireFromCpuSubset (d : Shdata) (pid : Pid) (cpus : List ℕ) : Shdata × DlbError :=
  let r := acquireCpusInArray S pid d cpus intMax
  (r.1, r.2.1)

/-! ## Borrow -/

/-- `borrow_cpu` -/
def borrowCpu (pid : Pid) (d : Shdata) (cpuid : ℕ) : Shdata × DlbError :=
  let info := d.nodeInfo cpuid
  if info.state = .disabled then (d, .errPerm)
  else if info.guest = 0 ∧ coreIsEligible S d pid cpuid then
    if info.owner = pid then
      -- CPU is owned by the process
      (((d.set cpuid { info with state := .busy, guest := pid }).push .enableCpu pid cpuid).clrFree cpuid, .success)
    else if info.state = .lent then
      -- CPU is available
      (noteOccupiedOwned S (((d.set cpuid { info with guest := pid }).push .enableCpu pid cpuid).clrFree cpuid) cpuid,
        .success)
    else (d, .noupdt)
  else (d, .noupdt)

/-- `borrow_core`. `borrow_cpu` never returns `DLB_NOTED`. -/
def borrowCore (pid : Pid) (d : Shdata) (coreId : Option ℕ) : Shdata × DlbError × ℕ :=
  coreLoop (borrowCpu S pid) pid (coreCpus S coreId) d .noupdt 0

/-- `borrow_cpus_in_array_cpuid_t`, and `borrow_cpus_in_cpu_set_t` on the CPUs of the set -/
def borrowCpusInArray (pid : Pid) (d : Shdata) (cpus : List ℕ) (ncpus : ℤ) : Shdata × DlbError × ℤ :=
  arrayLoop S (borrowCore S pid) (borrowCpu S pid) cpus none d ncpus .noupdt

/-- `shmem_cpuinfo__borrow_cpu` -/
def shmemBorrowCpu (d : Shdata) (pid : Pid) (cpuid : ℕ) : Shdata × DlbError :=
  if S.size ≤ cpuid then (d, .errPerm) else borrowCpu S pid d cpuid

/-- `shmem_cpuinfo__borrow_from_cpu_subset` -/
def shmemBorrowFromCpuSubset (d : Shdata) (pid : Pid) (cpus : List ℕ) : Shdata × DlbError :=
  let r := borrowCpusInArray S pid d cpus intMax
  (r.1, r.2.1)

/-! ## Acquire and borrow by number -/

/-- `lewi_affinity_t` -/
inductive LewiAffinity where
  | auto | none | mask | nearbyFirst | nearbyOnly | spreadIfempty
deriving DecidableEq, Repr

/-- What the operations by number read before they take the lock: other processes may change it meanwhile, also between
the two scans of the table. -/
structure Unlocked where
  timestampCpuLent : ℤ
  ownedScan : ℕ → CpuInfo
  guestScan : ℕ → CpuInfo

def Shdata.unlocked (d : Shdata) : Unlocked := ⟨d.timestampCpuLent, d.nodeInfo, d.nodeInfo⟩

structure Wish where
  requestedNcpus : Option ℤ := none
  cpusPriorityArray : List ℕ
  lewiAffinity : LewiAffinity := .auto
  maxParallelism : ℤ := 0
  lastBorrow : Option ℤ := none

/-- The last unsuccessful borrow is newer than the last CPU lent. -/
def Wish.stale (w : Wish) (u : Unlocked) : Bool :=
  match w.lastBorrow with
  | none => false
  | some t => u.timestampCpuLent < t

/-- The first CPUs of the array, until one that is not owned, are guested. -/
def allOwnedCpusAreGuested (nodeInfo : ℕ → CpuInfo) (pid : Pid) : List ℕ → Bool
  | [] => true
  | c :: rest =>
    if (nodeInfo c).owner ≠ pid then true
    else if (nodeInfo c).guest ≠ pid then false
    else allOwnedCpusAreGuested nodeInfo pid rest

/-- `max_parallelism`, less the CPUs that the process guests. -/
def Wish.parallelismLeft (w : Wish) (u : Unlocked) (pid : Pid) : ℤ :=
  if w.maxParallelism = 0 then 0
  else w.maxParallelism - (w.cpusPriorityArray.filter fun c => (u.guestScan c).guest = pid).length

def Wish.ncpus (w : Wish) (u : Unlocked) (pid : Pid) : ℤ :=
  let ncpus := w.requestedNcpus.getD S.size
  if 0 < w.parallelismLeft u pid then min ncpus (w.parallelismLeft u pid) else ncpus

/-- The operation returns before it takes the lock; `stale` is its own test of the timestamp. -/
def Wish.returnsEarly (w : Wish) (u : Unlocked) (pid : Pid) (stale : Bool) : Bool :=
  (w.requestedNcpus.any (· ≤ 0)) ∨ stale ∨ (w.maxParallelism ≠ 0 ∧ w.parallelismLeft u pid ≤ 0)

/-- The first request of the process with the same mask gets the CPUs of the new one. -/
def raiseRequest (request : LewiMaskRequest) : List LewiMaskRequest → Option (List LewiMaskRequest)
  | [] => none
  | it :: rest =>
    if it.pid = request.pid ∧ it.allowed = request.allowed then
      some ({ it with howmany := addU32 it.howmany request.howmany } :: rest)
    else (raiseRequest request rest).map (it :: ·)

/-- The global petition of `shmem_cpuinfo__acquire_ncpus_from_cpu_subset`. -/
def petition (d : Shdata) (request : LewiMaskRequest) : Shdata × DlbError :=
  match raiseRequest request d.lewiMaskRequests.items with
  | some items => ({ d with lewiMaskRequests := { d.lewiMaskRequests with items := items } }, .noted)
  | none =>
    match d.lewiMaskRequests.enqueue queueLewiMaskRequestSize request with
    | some queue => ({ d with lewiMaskRequests := queue }, .noted)
    | none => (d, .errReqst)

def petitionCpu (pid : Pid) (r : Shdata × DlbError) (cpuid : ℕ) : Shdata × DlbError :=
  let info := r.1.nodeInfo cpuid
  if info.state = .disabled ∨ (info.owner ≠ pid ∧ info.guest ≠ pid) then
    if pid ∉ info.requests.items then
      match info.requests.enqueue queuePidSize pid with
      | some requests => (r.1.set cpuid { info with requests := requests }, .noted)
      | none => r
    else r
  else r

/-- The petitions of asynchronous mode for what was not allocated. -/
def addPetitions (w : Wish) (pid : Pid) (r : Shdata × DlbError × ℤ) : Shdata × DlbError :=
  if r.1.queuesEnabled then
    match w.requestedNcpus with
    | some _ =>
      if 0 < r.2.2 then petition r.1 ⟨pid, r.2.2.toNat, w.cpusPriorityArray.toFinset⟩ else (r.1, r.2.1)
    | none => w.cpusPriorityArray.foldl (petitionCpu pid) (r.1, r.2.1)
  else (r.1, r.2.1)

def ownedIdle (pid : Pid) (info : CpuInfo) : Bool :=
  info.state ≠ .disabled ∧ info.owner = pid ∧ info.guest = 0

def ownedNonIdle (pid : Pid) (info : CpuInfo) : Bool :=
  info.state ≠ .disabled ∧ info.owner = pid ∧ info.guest ≠ 0 ∧ info.guest ≠ pid

def nonOwned (pid : Pid) (info : CpuInfo) : Bool :=
  info.state ≠ .disabled ∧ info.owner ≠ pid ∧ info.guest = 0

/-- One sub-array of `shmem_cpuinfo__acquire_ncpus_from_cpu_subset` with the loop it goes through. -/
def stage (loop : Shdata → List ℕ → ℤ → Shdata × DlbError × ℤ) (cpus : List ℕ) (r : Shdata × DlbError × ℤ) :
    Shdata × DlbError × ℤ :=
  if cpus = [] then r
  else
    let r' := loop r.1 cpus r.2.2
    (r'.1, if done r'.2.1 then mergeDone r.2.1 r'.2.1 else r.2.1, r'.2.2)

/-- The locked part of `shmem_cpuinfo__acquire_ncpus_from_cpu_subset`: owned CPUs that are idle, the rest of the owned
CPUs, then CPUs of others. The sub-arrays are built first. -/
def acquireStages (w : Wish) (d : Shdata) (pid : Pid) (ncpus : ℤ) : Shdata × DlbError × ℤ :=
  let cpus := fun p : CpuInfo → Bool => w.cpusPriorityArray.filter fun c => p (d.nodeInfo c)
  let r1 := stage (acquireCpusInArray S pid) (cpus (ownedIdle pid)) (d, .noupdt, ncpus)
  let r2 := stage (acquireCpusInArray S pid) (cpus (ownedNonIdle pid)) r1
  stage (borrowCpusInArray S pid) (cpus (nonOwned pid)) r2

/-- What an operation by number returns: the code, and `*last_borrow`. -/
structure Output where
  error : DlbError
  lastBorrow : Option ℤ := none
deriving DecidableEq, Repr

/-- `shmem_cpuinfo__acquire_ncpus_from_cpu_subset` -/
def shmemAcquireNcpusFromCpuSubset (c : Caller) (d : Shdata) (pid : Pid) (w : Wish) (u : Unlocked) : Shdata × Output :=
  if w.returnsEarly u pid (w.stale u && allOwnedCpusAreGuested u.ownedScan pid w.cpusPriorityArray) then
    (d, { error := .noupdt, lastBorrow := w.lastBorrow })
  else
    let r := addPetitions w pid (acquireStages S w d pid (w.ncpus S u pid))
    (r.1, { error := r.2, lastBorrow := if done r.2 then w.lastBorrow else w.lastBorrow.map fun _ => c.now })

/-- Only with spread-ifempty, borrow CPUs if there are free NUMA nodes. -/
def borrowFreeNodes (w : Wish) (pid : Pid) (r : Shdata × DlbError × ℤ) : Shdata × DlbError × ℤ :=
  if w.lewiAffinity = .spreadIfempty ∧ 0 < r.2.2 then
    stage (borrowCpusInArray S pid) (nodeCpus S (muGetNodesSubsetOfCpuset S r.1.freeCpus)) r
  else r

/-- `shmem_cpuinfo__borrow_ncpus_from_cpu_subset` -/
def shmemBorrowNcpusFromCpuSubset (c : Caller) (d : Shdata) (pid : Pid) (w : Wish) (u : Unlocked) : Shdata × Output :=
  if w.returnsEarly u pid (w.stale u) then (d, { error := .noupdt, lastBorrow := w.lastBorrow })
  else
    let ncpus := if d.freeCpus = ∅ then 0 else w.ncpus S u pid
    let r := borrowFreeNodes S w pid (borrowCpusInArray S pid d w.cpusPriorityArray ncpus)
    (r.1, { error := r.2.1,
            lastBorrow := if r.2.1 = .success then w.lastBorrow else w.lastBorrow.map fun _ => c.now })

/-! ## Return -/

/-- `return_cpu` -/
def returnCpu (pid : Pid) (d : Shdata) (cpuid : ℕ) : Shdata × DlbError :=
  let info := d.nodeInfo cpuid
  if info.owner = pid ∨ info.guest ≠ pid ∨ (info.state = .lent ∧ coreIsEligible S d pid cpuid) then (d, .noupdt)
  else
    let d1 :=
      if info.state = .busy then d.set cpuid { info with guest := info.owner }
      -- state is disabled or the core is not eligible
      else (d.set cpuid { info with guest := 0 }).setFree cpuid
    ((updateOccupiedCores S d1 info.owner cpuid).push .disableCpu pid cpuid, .success)

/-- The code of `shmem_cpuinfo__return_all` after one more CPU. -/
def mergeReturn (error error' : DlbError) : DlbError :=
  match error' with
  | .errReqst => .errReqst
  | .success => if error = .noupdt then .success else error
  | _ => error

/-- `shmem_cpuinfo__return_all`. The loop follows `occupied_cores` while it changes. -/
def shmemReturnAll (d : Shdata) (pid : Pid) : Shdata × DlbError :=
  (List.range S.bits).foldl (fun r cpuid =>
    if cpuid ∈ r.1.occupiedCores then
      let r' := returnCpu S pid r.1 cpuid
      (r'.1, mergeReturn r.2 r'.2)
    else r) (d, .noupdt)

/-- `shmem_cpuinfo__return_cpu` -/
def shmemReturnCpu (d : Shdata) (pid : Pid) (cpuid : ℕ) : Shdata × DlbError :=
  if S.size ≤ cpuid then (d, .errPerm)
  else if (d.nodeInfo cpuid).guest ≠ pid then (d, .errPerm)
  else returnCpu S pid d cpuid

/-- `shmem_cpuinfo__return_cpu_mask` -/
def shmemReturnCpuMask (d : Shdata) (pid : Pid) (mask : CpuSet) : Shdata × DlbError :=
  (muCpus S (mask ∩ d.occupiedCores)).foldl (fun r cpuid =>
    let r' := returnCpu S pid r.1 cpuid
    (r'.1, if r.2.code < 0 then r.2 else r'.2)) (d, .noupdt)

/-! ## Reset and max_parallelism -/

/-- Remove any request of a process, except on its own CPUs. -/
def removeRequests (d : Shdata) (pid : Pid) : Shdata :=
  if d.queuesEnabled then
    { d with
      lewiMaskRequests := d.lewiMaskRequests.remove queueLewiMaskRequestSize (·.pid = pid)
      nodeInfo := fun cpuid =>
        let info := d.nodeInfo cpuid
        if cpuid < S.size ∧ info.owner ≠ pid then
          { info with requests := info.requests.remove queuePidSize (· = pid) }
        else info }
  else d

/-- One CPU of `shmem_cpuinfo__reset`. -/
def resetCpu (pid : Pid) (d : Shdata) (cpuid : ℕ) : Shdata :=
  if (d.nodeInfo cpuid).owner = pid then (reclaimCpu pid d cpuid).1
  else if (d.nodeInfo cpuid).guest = pid then (lendCpu S pid d cpuid).push .disableCpu pid cpuid
  else d

/-- `shmem_cpuinfo__reset` -/
def shmemReset (c : Caller) (d : Shdata) (pid : Pid) : Shdata × DlbError :=
  (((List.range S.size).foldl (resetCpu S pid) (removeRequests S d pid)).updateShmemTimestamp c.now, .success)

/-- The first loop of `shmem_cpuinfo__update_max_parallelism`: how many CPUs are owned so far, and the guested ones. -/
def lendBeyond (pid : Pid) (max : ℕ) (r : Shdata × ℕ × List ℕ) (cpuid : ℕ) : Shdata × ℕ × List ℕ :=
  if (r.1.nodeInfo cpuid).owner = pid then
    if max < r.2.1 + 1 then ((lendCpu S pid r.1 cpuid).push .disableCpu pid cpuid, r.2.1 + 1, r.2.2)
    else (r.1, r.2.1 + 1, r.2.2)
  else if (r.1.nodeInfo cpuid).guest = pid then (r.1, r.2.1, r.2.2 ++ [cpuid])
  else r

/-- The second loop: the guested CPUs that are too many, `count` being the CPUs before. -/
def lendGuested (pid : Pid) (max : ℕ) : List ℕ → ℕ → Shdata → Shdata
  | [], _, d => d
  | cpuid :: rest, count, d =>
    let d1 := if max < count + 1 then (lendCpu S pid d cpuid).push .disableCpu pid cpuid else d
    lendGuested pid max rest (count + 1) d1

/-- `shmem_cpuinfo__update_max_parallelism` -/
def shmemUpdateMaxParallelism (c : Caller) (d : Shdata) (pid : Pid) (max : ℕ) : Shdata × DlbError :=
  let r := (List.range S.size).foldl (lendBeyond S pid max) (d, 0, [])
  ((lendGuested S pid max r.2.2 r.2.1 r.1).updateShmemTimestamp c.now, .success)

/-! ## Calls -/

inductive Call where
  | lendCpu (cpuid : ℕ)
  | lendCpuMask (mask : CpuSet)
  | reclaimAll
  | reclaimCpu (cpuid : ℕ)
  | reclaimCpus (ncpus : ℤ)
  | reclaimCpuMask (mask : CpuSet)
  | acquireCpu (cpuid : ℕ)
  | acquireFromCpuSubset (cpus : List ℕ)
  | acquireNcpusFromCpuSubset (wish : Wish) (unlocked : Unlocked)
  | borrowCpu (cpuid : ℕ)
  | borrowFromCpuSubset (cpus : List ℕ)
  | borrowNcpusFromCpuSubset (wish : Wish) (unlocked : Unlocked)
  | returnAll
  | returnCpu (cpuid : ℕ)
  | returnCpuMask (mask : CpuSet)
  | reset
  | updateMaxParallelism (max : ℕ)

/-- The effect of a call of process `pid` on the shared memory; the tasks are those of this call. -/
def exec (c : Caller) (pid : Pid) (d : Shdata) (call : Call) : Shdata :=
  let d := { d with tasks := [] }
  match call with
  | .lendCpu cpuid => (shmemLendCpu S c d pid cpuid).1
  | .lendCpuMask mask => (shmemLendCpuMask S c d pid mask).1
  | .reclaimAll => (shmemReclaimAll S d pid).1
  | .reclaimCpu cpuid => (shmemReclaimCpu S d pid cpuid).1
  | .reclaimCpus ncpus => (shmemReclaimCpus S d pid ncpus).1
  | .reclaimCpuMask mask => (shmemReclaimCpuMask S d pid mask).1
  | .acquireCpu cpuid => (shmemAcquireCpu S d pid cpuid).1
  | .acquireFromCpuSubset cpus => (shmemAcquireFromCpuSubset S d pid cpus).1
  | .acquireNcpusFromCpuSubset wish unlocked => (shmemAcquireNcpusFromCpuSubset S c d pid wish unlocked).1
  | .borrowCpu cpuid => (shmemBorrowCpu S d pid cpuid).1
  | .borrowFromCpuSubset cpus => (shmemBorrowFromCpuSubset S d pid cpus).1
  | .borrowNcpusFromCpuSubset wish unlocked => (shmemBorrowNcpusFromCpuSubset S c d pid wish unlocked).1
  | .returnAll => (shmemReturnAll S d pid).1
  | .returnCpu cpuid => (shmemReturnCpu S d pid cpuid).1
  | .returnCpuMask mask => (shmemReturnCpuMask S d pid mask).1
  | .reset => (shmemReset S c d pid).1
  | .updateMaxParallelism max => (shmemUpdateMaxParallelism S c d pid max).1

/-! ## Runs -/

/-- The node: its shared memory, and the processes that are attached to it. -/
structure Node where
  shm : Shdata := {}
  attached : Finset Pid := ∅

/-- A process initializes; it is attached if it succeeds. -/
def Node.init (n : Node) (c : Caller) (pid preinitPid : Pid) (mask : CpuSet) : Node :=
  let r := Cpuinfo.init S c n.shm pid preinitPid mask
  { shm := r.1, attached := if r.2 = .success then insert pid n.attached else n.attached }

/-- One step: a new process initializes with a mask of whole cores, or an attached one makes a call. The request queues
are never enabled. -/
inductive Step : Node → Node → Prop
  | init {n : Node} (c : Caller) (pid preinitPid : Pid) (mask : CpuSet) : pid ≠ 0 → pid ∉ n.attached →
      WholeCores S mask → Step n (n.init S c pid preinitPid mask)
  | call {n : Node} (c : Caller) (pid : Pid) (call : Call) : pid ∈ n.attached →
      Step n { n with shm := exec S c pid n.shm call }

/-- The states that steps reach from zeroed memory. -/
def Reachable (n : Node) : Prop := Lib.Run (Step S) {} n

end Dlb.Cpuinfo

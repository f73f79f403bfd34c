import Dlb.Cpuinfo.Shmem

/-!
# Ownership changes and deferred returns in cpuinfo

The rest of `shmem_cpuinfo.c` that writes the shared data: the request queues, the processes that an external tool
registers or cleans up, the end of LeWI in a process, a new process mask, the query of one CPU, and the second half of a
reclaim in asynchronous mode. At the end, the part of `lewi_mask.c` that decides which returns follow an operation.
-/

namespace Dlb.Cpuinfo

variable (S : System)

/-! ## Requests -/

/-- `shmem_cpuinfo__enable_request_queues` -/
def enableRequestQueues (d : Shdata) : Shdata := { d with queuesEnabled := true }

/-- `shmem_cpuinfo__remove_requests` -/
def shmemRemoveRequests (d : Shdata) (pid : Pid) : Shdata :=
  if d.queuesEnabled then
    { d with
      lewiMaskRequests := d.lewiMaskRequests.remove queueLewiMaskRequestSize (·.pid = pid)
      nodeInfo := fun cpuid =>
        let info := d.nodeInfo cpuid
        if cpuid < S.size then { info with requests := info.requests.remove queuePidSize (· = pid) } else info }
  else d

/-! ## On behalf of another process -/

/-- `shmem_cpuinfo_ext__preinit` -/
def extPreinit (c : Caller) (d : Shdata) (pid : Pid) (mask : CpuSet) (steal : Bool) : Shdata × DlbError :=
  registerProcess S (initShmem S c d) pid 0 mask steal

/-- `shmem_cpuinfo_ext__postfinalize` -/
def extPostfinalize (c : Caller) (d : Shdata) (pid : Pid) : Shdata × DlbError :=
  ((deregisterProcess S c d pid).updateShmemTimestamp c.now, .success)

/-- `cleanup_shmem`, which the next process to attach runs for a dead one. -/
def cleanupShmem (c : Caller) (d : Shdata) (pid : Pid) : Shdata := (List.range S.size).foldl (deregisterCpu S c pid) d

/-! ## Deregister -/

/-- An owned CPU of `shmem_cpuinfo__deregister`. -/
def leaveOwned (c : Caller) (pid : Pid) (d : Shdata) (cpuid : ℕ) : Shdata :=
  let d1 :=
    if c.cpuIsPublicPostMortem ∨ !c.respectCpuset then lendCpu S pid d cpuid
    else
      -- if the CPU won't be public, it must be reclaimed beforehand
      let d2 := (reclaimCpu pid d cpuid).1
      let info := d2.nodeInfo cpuid
      (d2.set cpuid { info with guest := if info.guest = pid then 0 else info.guest, state := .disabled }).clrFree cpuid
  { d1.set cpuid { d1.nodeInfo cpuid with owner := 0 } with occupiedCores := d1.occupiedCores.erase cpuid }

/-- One CPU of `shmem_cpuinfo__deregister`. -/
def leaveCpu (c : Caller) (pid : Pid) (d : Shdata) (cpuid : ℕ) : Shdata :=
  if (d.nodeInfo cpuid).owner = pid then leaveOwned S c pid d cpuid
  else if (d.nodeInfo cpuid).guest = pid then lendCpu S pid d cpuid
  else d

/-- `shmem_cpuinfo__deregister` -/
def shmemDeregister (c : Caller) (d : Shdata) (pid : Pid) : Shdata × DlbError :=
  (((List.range S.size).foldl (leaveCpu S c pid) (removeRequests S d pid)).updateShmemTimestamp c.now, .success)

/-! ## A new process mask -/

/-- A CPU of the new mask that the process does not own. -/
def stealCpu (hasTasks : Bool) (pid : Pid) (d : Shdata) (cpuid : ℕ) : Shdata :=
  let info := d.nodeInfo cpuid
  let d1 :=
    if info.guest = 0 then
      let d2 := (d.set cpuid { info with owner := pid, state := .busy, guest := pid }).clrFree cpuid
      { d2 with occupiedCores := d2.occupiedCores.erase cpuid }
    else d.set cpuid { info with owner := pid, state := .busy }
  if hasTasks then
    let guest := (d1.nodeInfo cpuid).guest
    (if guest ≠ pid then d1.push .disableCpu guest cpuid else d1).push .enableCpu pid cpuid
  else d1

def releaseCpu (hasTasks : Bool) (pid : Pid) (d : Shdata) (cpuid : ℕ) : Shdata :=
  let info := d.nodeInfo cpuid
  if info.guest = pid then
    let d1 := d.set cpuid { info with owner := 0, state := .disabled, guest := 0 }
    (if hasTasks then d1.push .disableCpu pid cpuid else d1).clrFree cpuid
  else d.set cpuid { info with owner := 0, state := .disabled }

/-- One CPU of `shmem_cpuinfo__update_ownership`. A null pointer instead of tasks is fatal when a CPU has to be returned:
the process exits (`true`) and the CPUs after it stay as they are. -/
def updateOwnershipCpu (hasTasks : Bool) (pid : Pid) (mask : CpuSet) (r : Shdata × Bool) (cpuid : ℕ) : Shdata × Bool :=
  let info := r.1.nodeInfo cpuid
  if r.2 then r
  else if cpuid ∈ mask then
    if info.owner ≠ pid then (stealCpu hasTasks pid r.1 cpuid, false) else r
  else if info.owner = pid then (releaseCpu hasTasks pid r.1 cpuid, false)
  else if info.guest = pid ∧ info.state = .busy then
    if hasTasks then ((returnCpu S pid r.1 cpuid).1, false) else (r.1, true)
  else r

/-- `shmem_cpuinfo__update_ownership` -/
def shmemUpdateOwnership (hasTasks : Bool) (d : Shdata) (pid : Pid) (mask : CpuSet) : Shdata × Bool :=
  (List.range S.size).foldl (updateOwnershipCpu S hasTasks pid mask) (d, false)

/-! ## Query a CPU -/

/-- `shmem_cpuinfo__check_cpu_availability`. The entry is read `before` the lock is taken, and the guest once more under
it. -/
def checkCpuAvailability (before : CpuInfo) (d : Shdata) (pid : Pid) (cpuid : ℕ) : Shdata × DlbError :=
  if before.owner ≠ pid ∧ (before.state = .busy ∨ before.state = .disabled) then (d, .errPerm)
  else if before.guest = pid then (d, .success)
  else if before.guest = 0 then
    if (d.nodeInfo cpuid).guest = 0 then
      ((d.set cpuid { d.nodeInfo cpuid with guest := pid }).clrFree cpuid, .success)
    else (d, .noted)
  else if before.owner = pid ∧ before.state = .lent then (d, .noupdt)
  else (d, .noted)

/-! ## Deferred returns -/

/-- The condition that `shmem_cpuinfo__return_async` ensures: a debug build aborts without it. -/
def ReturnEnsured (pid : Pid) (d : Shdata) (cpuid : ℕ) : Prop :=
  (d.nodeInfo cpuid).owner ≠ pid ∧ (d.nodeInfo cpuid).guest = pid

instance (pid : Pid) (d : Shdata) (cpuid : ℕ) : Decidable (ReturnEnsured pid d cpuid) :=
  inferInstanceAs (Decidable (_ ∧ _))

/-- The guest leaves in `shmem_cpuinfo__return_async`. -/
def returnGuest (d : Shdata) (cpuid : ℕ) : Shdata :=
  let info := d.nodeInfo cpuid
  if info.state = .busy then d.set cpuid { info with guest := info.owner }
  else (d.set cpuid { info with guest := 0 }).setFree cpuid

/-- The process asks for the CPU again; nothing is said of a full queue. -/
def requestAgain (pid : Pid) (d : Shdata) (cpuid : ℕ) : Shdata :=
  match (d.nodeInfo cpuid).requests.enqueue queuePidSize pid with
  | some requests => d.set cpuid { d.nodeInfo cpuid with requests := requests }
  | none => d

/-- `shmem_cpuinfo__return_async` of a release build. -/
def returnAsync (pid : Pid) (d : Shdata) (cpuid : ℕ) : Shdata :=
  requestAgain pid (updateOccupiedCores S (returnGuest d cpuid) (d.nodeInfo cpuid).owner cpuid) cpuid

/-- `shmem_cpuinfo__return_async_cpu_mask`, and `shmem_cpuinfo__return_async_cpu` for a mask of one CPU. -/
def returnAsyncCpuMask (pid : Pid) (d : Shdata) (mask : CpuSet) : Shdata :=
  (nodeCpus S mask).foldl (returnAsync S pid) d

/-- The processes in the order of `resolve_cpuinfo_tasks`. Tasks are grouped by pid: more than two are sorted, and two of
one pid stand together anyway. -/
def taskPids (tasks : List CpuinfoTask) : List Pid :=
  let pids := (tasks.map (·.pid)).dedup
  if 2 < tasks.length then pids.insertionSort (· ≤ ·) else pids

/-- `cpus_to_disable` of a process. -/
def cpusToDisable (tasks : List CpuinfoTask) (pid : Pid) : CpuSet :=
  ((tasks.filter fun task => task.pid = pid ∧ task.action = .disableCpu).map (·.cpuid)).toFinset

/-- The returns that `resolve_cpuinfo_tasks` makes in asynchronous mode: a process runs the callbacks of its own tasks,
and tells another one to disable CPUs before it returns these for it. -/
def resolveCpuinfoTasks (id : Pid) (tasks : List CpuinfoTask) : List (Pid × CpuSet) :=
  (((taskPids tasks).filter (· ≠ id)).map fun pid => (pid, cpusToDisable tasks pid)).filter (·.2 ≠ ∅)

end Dlb.Cpuinfo

import Dlb.Lib.Run
import Dlb.Lib.Table
import Dlb.Support.MaskUtils
import Dlb.Support.Types

/-!
# The procinfo shared memory

`shmem_procinfo.c`: the table of processes with the CPUs that each one has (`current_process_mask`), will have once it
updates its mask (`future_process_mask`, meaningful while `dirty`) and has lost to others (`stolen_cpus`), and the
`free_mask` of CPUs that nobody owns. Every operation runs under the lock of the shared memory, so an operation is a
function from state to state.

A call with `DLB_SYNC_QUERY` leaves the lock while it polls; such calls are not modelled. The operations that start
with `CPU_` in the source work on the whole `cpu_set_t`, those that start with `mu_` on the words of the system.
-/

namespace Dlb.Procinfo

/-- `pinfo_t`, without the statistics. -/
structure Pinfo where
  pid : Pid := 0
  dirty : Bool := false
  preregistered : Bool := false
  currentProcessMask : CpuSet := ∅
  futureProcessMask : CpuSet := ∅
  stolenCpus : CpuSet := ∅
deriving DecidableEq

/-- The mask that counts: the pending one of a dirty process. -/
def Pinfo.effective (p : Pinfo) : CpuSet := if p.dirty then p.futureProcessMask else p.currentProcessMask

/-- `shdata_t`, with its flags. The memory is zeroed when created. -/
structure Shdata where
  initialized : Bool := false
  allowCpuSharing : Bool := false
  cpuSharingUnknown : Bool := false
  freeMask : CpuSet := ∅
  maxProcesses : ℕ := 0
  numProcesses : ℕ := 0
  processInfo : ℕ → Pinfo := fun _ => {}

/-- The static variables of the calling process: the slot that `my_pinfo` points to, and `max_processes`. The slot may
since have been cleared, or taken by another process. -/
structure Caller where
  myPinfo : Option ℕ := none
  maxProcesses : ℕ
deriving Repr

/-- `dlb_drom_flags_t`, the flags that matter without `DLB_SYNC_QUERY`. -/
structure DromFlags where
  stealCpus : Bool := false
  returnStolen : Bool := false
  noSync : Bool := false
deriving DecidableEq, Repr

/-- What a call returns: the code and the mask it writes to its output argument. -/
structure Output where
  error : DlbError
  mask : Option CpuSet := none
deriving DecidableEq

namespace Shdata

/-- Write slot `p` of the table. -/
def set (d : Shdata) (p : ℕ) (info : Pinfo) : Shdata :=
  { d with processInfo := Function.update d.processInfo p info }

/-- Change slot `p` of the table. -/
def modify (d : Shdata) (p : ℕ) (f : Pinfo → Pinfo) : Shdata := d.set p (f (d.processInfo p))

/-- `is_shmem_empty` -/
def isShmemEmpty (d : Shdata) : Bool := (Lib.scan d.numProcesses fun p => (d.processInfo p).pid ≠ 0).isNone

end Shdata

/-- The caller's own slot if it matches, else the first match below the upper bound. -/
def findProcess (c : Caller) (d : Shdata) (pid : Pid) : Option ℕ :=
  let iterate := Lib.scan d.numProcesses fun p => (d.processInfo p).pid = pid
  match c.myPinfo with
  | some i => if (d.processInfo i).pid = pid then some i else iterate
  | none => iterate

/-- `get_process`: a process that is not found is looked for under the pids of its parents, which `/proc` tells. -/
def getProcess (c : Caller) (d : Shdata) (pid : Pid) : List Pid → Option ℕ
  | [] => findProcess c d pid
  | parent :: rest => (findProcess c d pid).or (if 0 < parent then getProcess c d parent rest else none)

variable (S : System)

/-! ## Registering and unregistering CPUs -/

/-- What a new owner gets: the CPUs are pending, and no longer stolen from it. -/
def granted (newOwner : Pinfo) (mask : CpuSet) : Pinfo :=
  { newOwner with
    futureProcessMask := newOwner.futureProcessMask ∪ mask
    stolenCpus := muSubtract S newOwner.stolenCpus newOwner.stolenCpus mask
    dirty := true }

/-- `register_mask`: free CPUs move to the new owner. -/
def registerMask (d : Shdata) (newOwner : Pinfo) (mask : CpuSet) : Shdata × Pinfo × DlbError :=
  if mask = ∅ then (d, newOwner, .success)
  else if d.allowCpuSharing then (d, newOwner, .success)
  else if muIsSubset S mask d.freeMask then
    ({ d with freeMask := muSubtract S d.freeMask d.freeMask mask }, granted S newOwner mask, .success)
  else (d, newOwner, .errPerm)

def lostBy (d : Shdata) (cpu : ℕ) : Option ℕ :=
  Lib.scan d.numProcesses fun p => (d.processInfo p).pid ≠ 0 ∧ cpu ∈ (d.processInfo p).stolenCpus

/-- The entry of a process that gets back a CPU. -/
def givenBack (info : Pinfo) (cpu : ℕ) : Pinfo :=
  { info with
    futureProcessMask := insert cpu info.futureProcessMask
    stolenCpus := info.stolenCpus.erase cpu
    dirty := true }

/-- A CPU goes back to the first process that lost it, else to the `free_mask`. -/
def giveBack (d : Shdata) (cpu : ℕ) : Shdata :=
  match lostBy d cpu with
  | some p => d.set p (givenBack (d.processInfo p) cpu)
  | none => { d with freeMask := insert cpu d.freeMask }

/-- One CPU of the loop of `unregister_mask`: it is given back and then removed from the owner. -/
def unregisterCpu (owner : ℕ) (d : Shdata) (cpu : ℕ) : Shdata :=
  (giveBack d cpu).modify owner fun info => { info with
    futureProcessMask := info.futureProcessMask.erase cpu
    dirty := true }

/-- `unregister_mask`. In some calls `mask` points to a mask of the owner: each CPU is read before it is removed. -/
def unregisterMask (d : Shdata) (owner : ℕ) (mask : CpuSet) (returnStolen : Bool) : Shdata :=
  if mask = ∅ then d
  else if d.allowCpuSharing then d
  else if returnStolen then ((List.range S.size).filter (· ∈ mask)).foldl (unregisterCpu owner) d
  else { d with freeMask := d.freeMask ∪ mask }.modify owner fun info => { info with
    futureProcessMask := muSubtract S info.futureProcessMask info.futureProcessMask mask
    dirty := true }

/-! ## Stealing CPUs -/

def robbed (victim : Pinfo) (target : CpuSet) : Pinfo :=
  { victim with
    dirty := true
    futureProcessMask := muSubtract S victim.futureProcessMask victim.currentProcessMask target
    stolenCpus := victim.stolenCpus ∪ target }

/-- Steal the target CPUs from the victim in slot `p`, unless it is a dry run. -/
def stealFrom (dryRun : Bool) (d : Shdata) (p : ℕ) (target : CpuSet) : Shdata :=
  if dryRun then d else d.set p (robbed S (d.processInfo p) target)

/-- The loop of `steal_mask` over the victims: an error, and the CPUs left to steal. -/
def stealLoop (newOwner : ℕ) (mask : CpuSet) (dryRun : Bool) :
    List ℕ → Shdata → CpuSet → Shdata × CpuSet × DlbError
  | [], d, left => (d, left, .success)
  | p :: ps, d, left =>
    let victim := d.processInfo p
    let target := victim.currentProcessMask ∩ mask
    if p ≠ newOwner ∧ victim.pid ≠ 0 ∧ target ≠ ∅ then
      if victim.dirty then (d, left, .errPerm)
      else
        let d := stealFrom S dryRun d p target
        let left := muSubtract S left left target
        if left = ∅ then (d, left, .success) else stealLoop newOwner mask dryRun ps d left
    else stealLoop newOwner mask dryRun ps d left

/-- The roll back of `steal_mask` at one victim. -/
def rollBack (newOwner : ℕ) (mask : CpuSet) (d : Shdata) (p : ℕ) : Shdata :=
  let victim := d.processInfo p
  let toReturn := victim.stolenCpus ∩ mask
  if p ≠ newOwner ∧ victim.pid ≠ 0 ∧ toReturn ≠ ∅ then
    let future := victim.futureProcessMask ∪ toReturn
    d.set p { victim with
      futureProcessMask := future
      stolenCpus := muSubtract S victim.stolenCpus victim.stolenCpus toReturn
      dirty := !decide (victim.currentProcessMask = future) }
  else d

/-- CPUs left without a candidate are an error. -/
def stealError (left : CpuSet) (error : DlbError) : DlbError :=
  if error = .success ∧ left ≠ ∅ then .errPerm else error

/-- `steal_mask` without `sync` -/
def stealMask (d : Shdata) (newOwner : ℕ) (mask : CpuSet) (dryRun : Bool) : Shdata × DlbError :=
  if mask = ∅ then (d, .success)
  else
    let (d, left, error) := stealLoop S newOwner mask dryRun (List.range d.numProcesses) d mask
    let error := stealError left error
    if dryRun then (d, error)
    else if error = .success then (d.set newOwner (granted S (d.processInfo newOwner) mask), error)
    else ((List.range d.numProcesses).foldl (rollBack S newOwner mask) d, error)

section Classes

variable (d : Shdata) (process : Pinfo) (mask : CpuSet)

def cpusToAcquire : CpuSet := {c ∈ Finset.range S.size | c ∈ mask ∧ c ∈ d.freeMask}

/-- The CPUs that are set, used, and not in the current mask of the process. -/
def cpusToSteal : CpuSet :=
  {c ∈ Finset.range S.size | c ∈ mask ∧ c ∉ d.freeMask ∧ c ∉ process.currentProcessMask}

/-- The CPUs of the current mask of the process that are not set. -/
def cpusToFree : CpuSet := {c ∈ Finset.range S.size | c ∉ mask ∧ c ∈ process.currentProcessMask}

end Classes

/-- `set_new_mask`: the CPUs are classified once, before anything moves. -/
def setNewMask (d : Shdata) (p : ℕ) (mask : CpuSet) (returnStolen : Bool) : Shdata × Output :=
  if d.allowCpuSharing then (d, { error := .errNocomp })
  else
    let process := d.processInfo p
    let toAcquire := cpusToAcquire S d mask
    let toSteal := cpusToSteal S d process mask
    let toFree := cpusToFree S process mask
    -- a dry run first, to check that the CPUs can be stolen
    let dry := stealMask S d p toSteal true
    if dry.2 ≠ .success then (dry.1, { error := dry.2 })
    else
      let stolen := stealMask S dry.1 p toSteal false
      if stolen.2 ≠ .success then (stolen.1, { error := stolen.2 })
      else
        let (d, info, error) := registerMask S stolen.1 (stolen.1.processInfo p) toAcquire
        let d := d.set p info
        if error ≠ .success then (d, { error := error })
        else (unregisterMask S d p toFree returnStolen, { error := .success, mask := toFree })

/-! ## Init -/

/-- The first attached process sets the shared memory up, later ones must agree with it. -/
def openShmem (c : Caller) (d : Shdata) (sharing : Bool) : Except DlbError Shdata :=
  if !d.initialized then
    .ok { d with
      initialized := true
      allowCpuSharing := sharing
      cpuSharingUnknown := false
      freeMask := S.sysMask
      maxProcesses := c.maxProcesses
      numProcesses := 0 }
  else if d.maxProcesses ≠ c.maxProcesses then .error .errInit
  else if d.cpuSharingUnknown then .ok { d with allowCpuSharing := sharing, cpuSharingUnknown := false }
  else if d.allowCpuSharing ≠ sharing then .error .errNocomp
  else .ok d

/-- One slot of the search of `shmem_procinfo__init_`, with the empty spot and the preregistered process found so
far. -/
def visitSlot (d : Shdata) (pid preinitPid : Pid) (found : Option ℕ × Option ℕ) (p : ℕ) :
    Except DlbError (Option ℕ × Option ℕ) :=
  let info := d.processInfo p
  if found.1 = none ∧ info.pid = 0 then .ok (some p, found.2)
  else if preinitPid ≠ 0 ∧ found.2 = none ∧ info.pid = preinitPid then
    if info.preregistered then .ok (found.1, some p) else .error .errInit
  else if info.pid = pid then .error .errInit
  else .ok found

def allFound (preinitPid : Pid) (found : Option ℕ × Option ℕ) : Bool :=
  found.1.isSome && (preinitPid = 0 || found.2.isSome)

/-- The search of `shmem_procinfo__init_`: it stops as soon as everything needed is found. -/
def findSlots (d : Shdata) (pid preinitPid : Pid) :
    List ℕ → Option ℕ × Option ℕ → Except DlbError (Option ℕ × Option ℕ)
  | [], found => .ok found
  | p :: ps, found =>
    match visitSlot d pid preinitPid found p with
    | .error error => .error error
    | .ok found => if allFound preinitPid found then .ok found else findSlots d pid preinitPid ps found

/-- A new process in slot `p`. -/
def newProcess (d : Shdata) (pid : Pid) (mask : CpuSet) (p : ℕ) : Shdata × DlbError :=
  let (d, process, error) := registerMask S d { pid := pid } mask
  if error = .success then
    -- register_mask sets the dirty flag, undo
    (d.set p { process with currentProcessMask := mask, futureProcessMask := mask, dirty := false }, error)
  else (d.set p { process with pid := 0 }, error)

/-- The inheritance from the preregistered process in slot `q`: the slot of the new process, unless an error. -/
def inheritProcess (d : Shdata) (pid : Pid) (mask : CpuSet) (q : ℕ) (emptySpot : Option ℕ) :
    Shdata × Option ℕ × DlbError :=
  let preinit := d.processInfo q
  let preinitMask := preinit.effective
  if mask = ∅ ∨ mask = preinitMask then
    -- A: simple inheritance
    (d.set q { preinit with pid := pid, preregistered := false }, some q, .noted)
  else if muIsProperSuperset S mask preinitMask then
    -- B: inheritance and expansion, the new CPUs are registered in a placeholder process
    if preinit.dirty then (d, none, .errPdirty)
    else
      let (d, _, error) := registerMask S d {} (muSubtract S ∅ mask preinitMask)
      if error = .success then
        (d.set q { preinit with
          pid := pid
          preregistered := false
          currentProcessMask := mask
          futureProcessMask := mask }, some q, .noted)
      else (d, none, .errPerm)
  else if muIsProperSubset S mask preinitMask then
    -- C: new spot, subset
    if preinit.dirty then (d, none, .errPdirty)
    else match emptySpot with
      | none => (d, none, .errNomem)
      | some p =>
        let inherited := preinitMask ∩ mask
        let d := d.set p { pid := pid, currentProcessMask := inherited, futureProcessMask := inherited }
        (d.modify q fun info => { info with
          currentProcessMask := muSubtract S info.currentProcessMask info.currentProcessMask inherited
          futureProcessMask := muSubtract S info.futureProcessMask info.futureProcessMask inherited }, some p, .noted)
  else
    -- D: new spot and expansion
    if preinit.dirty then (d, none, .errPdirty)
    else match emptySpot with
      | none => (d, none, .errNomem)
      | some p =>
        let (d, _, error) := registerMask S d {} (muSubtract S ∅ mask preinitMask)
        if error = .success then
          let d := d.set p { d.processInfo p with
            pid := pid
            preregistered := false
            currentProcessMask := mask
            futureProcessMask := mask }
          (d.modify q fun info => { info with
            currentProcessMask := muSubtract S info.currentProcessMask info.currentProcessMask mask
            futureProcessMask := muSubtract S info.futureProcessMask info.futureProcessMask mask }, some p, .noted)
        else (d, none, .errPerm)

/-- The slots that `shmem_procinfo__init_` works with: an empty one, or the last position when there is room for it,
and whether it is the last position. -/
def emptySpot (c : Caller) (d : Shdata) (found : Option ℕ) : Option ℕ × Bool :=
  if d.numProcesses < c.maxProcesses ∧ found = none then (some d.numProcesses, true) else (found, false)

/-- The upper bound grows when the last position is used. -/
def Shdata.grow (d : Shdata) (grows : Bool) : Shdata :=
  if grows then { d with numProcesses := d.numProcesses + 1 } else d

/-- `shmem_procinfo__init_`. A null mask is an empty one. -/
def init (c : Caller) (d : Shdata) (pid preinitPid : Pid) (mask : CpuSet) (sharing : Bool) : Shdata × Output :=
  match openShmem S c d sharing with
  | .error error => (d, { error := error })
  | .ok d =>
    match findSlots d pid preinitPid (List.range d.numProcesses) (none, none) with
    | .error error => (d, { error := error })
    | .ok (found, preinit) =>
      let (spot, isLast) := emptySpot c d found
      match preinit with
      | none =>
        match spot with
        | none => (d, { error := .errNomem })
        | some p =>
          let (d, error) := newProcess S d pid mask p
          (d.grow isLast, { error := error })
      | some q =>
        let (d, process, error) := inheritProcess S d pid mask q spot
        let new := if error = .noted then process.map fun p => (d.processInfo p).effective else none
        (d.grow (process = spot ∧ isLast), { error := error, mask := new })

/-- `shmem_procinfo_ext__init` -/
def extInit (c : Caller) (d : Shdata) : Shdata × Output :=
  if !d.initialized then
    ({ d with
      initialized := true
      allowCpuSharing := false
      cpuSharingUnknown := true
      freeMask := S.sysMask
      maxProcesses := c.maxProcesses
      numProcesses := 0 }, { error := .success })
  else (d, { error := .success })

/-- The CPUs of a preregistered process: registered as usual, or stolen if necessary. -/
def takeMask (d : Shdata) (p : ℕ) (mask : CpuSet) (flags : DromFlags) : Shdata × DlbError :=
  if flags.stealCpus then
    let r := setNewMask S d p mask flags.returnStolen
    (r.1, r.2.error)
  else
    let (d', process, error) := registerMask S d (d.processInfo p) mask
    (d'.set p process, error)

/-- The registration of `shmem_procinfo_ext__preinit` in slot `p`. -/
def preregister (d : Shdata) (pid : Pid) (mask : CpuSet) (flags : DromFlags) (p : ℕ) : Shdata × DlbError :=
  let (d, error) := takeMask S (d.set p { pid := pid, preregistered := true }) p mask flags
  if error ≠ .success then (d.modify p fun info => { info with pid := 0 }, error)
  else
    let d := d.modify p fun info => { info with
      currentProcessMask := mask
      futureProcessMask := mask
      dirty := false }
    (d.grow (p = d.numProcesses), .success)

/-- `shmem_procinfo_ext__preinit`: the first slot that is taken by `pid` or empty decides. -/
def preinit (c : Caller) (d : Shdata) (pid : Pid) (mask : CpuSet) (flags : DromFlags) : Shdata × Output :=
  match Lib.scan c.maxProcesses fun p => (d.processInfo p).pid = pid ∨ (d.processInfo p).pid = 0 with
  | none => (d, { error := .errNomem })
  | some p =>
    if (d.processInfo p).pid = pid then (d, { error := .errInit })
    else
      let (d, error) := preregister S d pid mask flags p
      (d, { error := error })

/-! ## Finalize -/

/-- `shmem_procinfo__finalize`, `shmem_procinfo_ext__postfinalize` -/
def finalize (c : Caller) (d : Shdata) (pid : Pid) (parents : List Pid) (returnStolen : Bool) : Shdata × Output :=
  match getProcess c d pid parents with
  | none => (d, { error := .errNoproc })
  | some p => ((unregisterMask S d p (d.processInfo p).effective returnStolen).set p {}, { error := .success })

/-- `shmem_procinfo_ext__recover_stolen_cpus` -/
def recoverStolenCpus (c : Caller) (d : Shdata) (pid : Pid) (parents : List Pid) : Shdata × Output :=
  match getProcess c d pid parents with
  | none => (d, { error := .errNoproc })
  | some p =>
    let process := d.processInfo p
    if process.stolenCpus = ∅ then (d, { error := .noupdt })
    else
      let recovered := process.stolenCpus ∩ d.freeMask
      let (d, process, error) := registerMask S d process recovered
      if error = .success then
        (d.set p { process with stolenCpus := muSubtract S process.stolenCpus process.stolenCpus recovered },
          { error := error })
      else (d.set p process, { error := error })

/-- `close_shmem` of the last attached process: the shared memory is deleted if it is empty. -/
def closeShmem (d : Shdata) : Shdata × Output := (if d.isShmemEmpty then {} else d, { error := .success })

/-! ## Get and set process mask -/

def resolve (info : Pinfo) : Pinfo := { info with currentProcessMask := info.futureProcessMask, dirty := false }

/-- `shmem_procinfo__getprocessmask_self` -/
def getprocessmaskSelf (d : Shdata) (p : ℕ) : Shdata × Output :=
  let process := d.processInfo p
  if process.dirty then (d.set p (resolve process), { error := .noted, mask := process.futureProcessMask })
  else (d, { error := .success, mask := process.currentProcessMask })

/-- The pid is `0` or the caller's own. -/
def isSelf (c : Caller) (d : Shdata) (pid : Pid) : Option ℕ :=
  match c.myPinfo with
  | some p => if pid = 0 ∨ (d.processInfo p).pid = pid then some p else none
  | none => none

/-- `shmem_procinfo__getprocessmask` -/
def getprocessmask (c : Caller) (d : Shdata) (pid : Pid) (parents : List Pid) : Shdata × Output :=
  match isSelf c d pid with
  | some p => getprocessmaskSelf d p
  | none =>
    if pid = 0 then (d, { error := .errNoproc })
    else match getProcess c d pid parents with
      | none => (d, { error := .errNoproc })
      | some p => (d, { error := .success, mask := (d.processInfo p).effective })

/-- A dirty process may only confirm its pending mask. -/
def setOwnMask (d : Shdata) (p : ℕ) (mask : CpuSet) (returnStolen : Bool) : Shdata × Output :=
  if !(d.processInfo p).dirty ∨ mask = (d.processInfo p).futureProcessMask then setNewMask S d p mask returnStolen
  else (d, { error := .errPdirty })

/-- `shmem_procinfo__setprocessmask_self` -/
def setprocessmaskSelf (d : Shdata) (p : ℕ) (mask : CpuSet) (flags : DromFlags) : Shdata × Output :=
  let r := setOwnMask S d p mask flags.returnStolen
  if r.2.error = .success ∧ !flags.noSync then (r.1.modify p resolve, r.2) else r

/-- `shmem_procinfo__setprocessmask` -/
def setprocessmask (c : Caller) (d : Shdata) (pid : Pid) (parents : List Pid) (mask : CpuSet) (flags : DromFlags) :
    Shdata × Output :=
  match isSelf c d pid with
  | some p => setprocessmaskSelf S d p mask flags
  | none =>
    if pid = 0 then (d, { error := .errNoproc })
    else match getProcess c d pid parents with
      | none => (d, { error := .errNoproc })
      | some p =>
        if (d.processInfo p).dirty then (d, { error := .errPdirty })
        else setNewMask S d p mask flags.returnStolen

/-- `shmem_procinfo__polldrom` -/
def polldrom (c : Caller) (d : Shdata) (pid : Pid) (parents : List Pid) : Shdata × Output :=
  match getProcess c d pid parents with
  | none => (d, { error := .errNoproc })
  | some p =>
    let process := d.processInfo p
    if process.dirty then (d.set p (resolve process), { error := .success, mask := process.futureProcessMask })
    else (d, { error := .noupdt })

/-! ## Calls -/

inductive Call where
  | init (pid preinitPid : Pid) (mask : CpuSet) (sharing : Bool)
  | extInit
  | preinit (pid : Pid) (mask : CpuSet) (flags : DromFlags)
  | finalize (pid : Pid) (parents : List Pid) (returnStolen : Bool)
  | recoverStolenCpus (pid : Pid) (parents : List Pid)
  | getprocessmask (pid : Pid) (parents : List Pid)
  | setprocessmask (pid : Pid) (parents : List Pid) (mask : CpuSet) (flags : DromFlags)
  | polldrom (pid : Pid) (parents : List Pid)
  | closeShmem

/-- A call of process `c`. Only the two inits open the shared memory; the others need it open. -/
def exec (c : Caller) (d : Shdata) : Call → Shdata × Output
  | .init pid preinitPid mask sharing => init S c d pid preinitPid mask sharing
  | .extInit => extInit S c d
  | call =>
    if !d.initialized then (d, { error := .errNoshmem })
    else match call with
      | .preinit pid mask flags => preinit S c d pid mask flags
      | .finalize pid parents returnStolen => finalize S c d pid parents returnStolen
      | .recoverStolenCpus pid parents => recoverStolenCpus S c d pid parents
      | .getprocessmask pid parents => getprocessmask c d pid parents
      | .setprocessmask pid parents mask flags => setprocessmask S c d pid parents mask flags
      | .polldrom pid parents => polldrom c d pid parents
      | _ => closeShmem d

variable (adm : Caller → Shdata → Call → Prop)

/-- One step: a call that `adm` admits. -/
inductive Step : Shdata → Shdata → Prop
  | call {d : Shdata} (c : Caller) (call : Call) : adm c d call → Step d (exec S c d call).1

/-- The states that calls admitted by `adm` reach from zeroed memory. -/
def Reachable (d : Shdata) : Prop := Lib.Run (Step S adm) {} d

def replay (calls : List (Caller × Call)) (d : Shdata) : Shdata := calls.foldl (fun d call => (exec S call.1 d call.2).1) d

variable {S adm}

theorem replay_run {calls : List (Caller × Call)} {d : Shdata}
    (h : ∀ d, ∀ call ∈ calls, adm call.1 d call.2) : Lib.Run (Step S adm) d (replay S calls d) := by
  induction calls generalizing d with
  | nil => exact .refl
  | cons call rest ih =>
    refine .head (.call call.1 call.2 (h d call List.mem_cons_self)) (ih fun d' call' hc => ?_)
    exact h d' call' (List.mem_cons_of_mem _ hc)

def threeCpus : System where
  sysMask := {0, 1, 2}
  cores := [{0}, {1}, {2}]
  disjoint := pairwise_three
  covered := subset_of_three

/-- A process of `threeCpus` that has not saved the pointer to its slot. -/
def caller : Caller := { maxProcesses := 3 }

end Dlb.Procinfo

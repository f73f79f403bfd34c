import Dlb.Cpuinfo.Lifecycle
import Dlb.Procinfo.Shmem

/-!
# The two shared memories of a node

`DLB_kernel.c`, as far as it touches both memories that say who owns which CPU: procinfo has the masks of the processes,
cpuinfo the owner of each CPU. Procinfo changes when a change is requested, cpuinfo when the process it is about
initializes, finishes or polls. An operation locks one memory after the other; here it is one step.

`Initialize` and `Finish` are those of a process that needs its mask (LeWI with masks, DROM or a preinitialization) and
does not share its CPUs. Of what they do besides, nothing touches an owner.
-/

namespace Dlb.Kernel

open Procinfo (DromFlags)

structure Node where
  procinfo : Procinfo.Shdata := {}
  cpuinfo : Cpuinfo.Shdata := {}

/-- The calling process: its `subprocess_descriptor_t`, the pids of its parents, and the static variables of the two
modules. -/
structure Process where
  id : Pid
  dlbInitialized : Bool := true
  lewi : Bool := false
  drom : Bool := true
  preinitPid : Pid := 0
  returnStolen : Bool := false
  parents : List Pid := []
  procinfo : Procinfo.Caller
  cpuinfo : Cpuinfo.Caller

/-- What an operation leaves: the memories, its code, and whether the process dies of a fatal error. -/
structure Result where
  node : Node
  error : DlbError
  dies : Bool := false

variable (S : System) (p : Process) (n : Node)

/-! ## The operations -/

/-- `Initialize`: a process that inherits CPUs continues with the mask that procinfo tells it. -/
def initializeSpd (mask : CpuSet) : Result :=
  let r := Procinfo.exec S p.procinfo n.procinfo (.init p.id p.preinitPid mask false)
  if r.2.error ≠ .success ∧ r.2.error ≠ .noted then { node := { n with procinfo := r.1 }, error := r.2.error }
  else
    let processMask := if r.2.error = .noted then r.2.mask.getD ∅ else mask
    let s := Cpuinfo.init S p.cpuinfo n.cpuinfo p.id p.preinitPid processMask
    { node := ⟨r.1, s.1⟩, error := s.2 }

/-- `PreInitialize` and `DLB_DROM_PreInit`, once the memories are open. -/
def preInit (pid : Pid) (mask : CpuSet) (flags : DromFlags) : Result :=
  let r := Procinfo.exec S p.procinfo n.procinfo (.preinit pid mask flags)
  if r.2.error ≠ .success then { node := { n with procinfo := r.1 }, error := r.2.error }
  else
    let s := Cpuinfo.extPreinit S p.cpuinfo n.cpuinfo pid mask flags.stealCpus
    { node := ⟨r.1, s.1⟩, error := s.2 }

/-- `Finish`: LeWI deregisters the process first. -/
def finish : Result :=
  let cpuinfo := if p.lewi then (Cpuinfo.shmemDeregister S p.cpuinfo n.cpuinfo p.id).1 else n.cpuinfo
  let r := Procinfo.exec S p.procinfo n.procinfo (.finalize p.id p.parents p.returnStolen)
  { node := ⟨r.1, Cpuinfo.finalize S p.cpuinfo cpuinfo p.id⟩, error := .success }

/-- `shmem_cpuinfo__update_ownership`, after procinfo has changed. Without LeWI there is no list of tasks. -/
def updateOwnership (procinfo : Procinfo.Shdata) (mask : CpuSet) : Result :=
  let s := Cpuinfo.shmemUpdateOwnership S p.lewi n.cpuinfo p.id mask
  { node := ⟨procinfo, s.1⟩, error := .success, dies := s.2 }

/-- `poll_drom` -/
def pollDrom : Result :=
  if !p.drom then { node := n, error := .errNocomp }
  else
    let r := Procinfo.exec S p.procinfo n.procinfo (.polldrom p.id p.parents)
    if r.2.error = .success then updateOwnership S p n r.1 (r.2.mask.getD ∅)
    else { node := { n with procinfo := r.1 }, error := r.2.error }

/-- `drom_setprocessmask`: a process that sets its own mask updates cpuinfo at once, unless it says not to. -/
def dromSetprocessmask (pid : Pid) (parents : List Pid) (mask : CpuSet) (flags : DromFlags) : Result :=
  let r := Procinfo.exec S p.procinfo n.procinfo (.setprocessmask pid parents mask flags)
  if r.2.error = .success ∧ p.dlbInitialized ∧ (pid = 0 ∨ pid = p.id) ∧ !flags.noSync then
    updateOwnership S p n r.1 mask
  else { node := { n with procinfo := r.1 }, error := r.2.error }

/-! ## Calls -/

/-- An operation. `closeProcinfo` and `closeCpuinfo` are `close_shmem` of the last process attached to one memory. -/
inductive Call where
  | attach
  | init (mask : CpuSet)
  | preInit (pid : Pid) (mask : CpuSet) (flags : DromFlags)
  | finish
  | pollDrom
  | dromSetprocessmask (pid : Pid) (parents : List Pid) (mask : CpuSet) (flags : DromFlags)
  | closeProcinfo
  | closeCpuinfo

/-- The cpuinfo memory is deleted if no CPU has an owner; while processes are registered, one of them is attached. -/
def closeCpuinfo : Cpuinfo.Shdata :=
  if n.procinfo.isShmemEmpty ∧ ∀ c < S.size, (n.cpuinfo.nodeInfo c).owner = 0 then {} else n.cpuinfo

/-- An operation of process `p`. -/
def exec : Call → Result
  | .attach =>
    let r := Procinfo.exec S p.procinfo n.procinfo .extInit
    { node := { n with procinfo := r.1 }, error := r.2.error }
  | .init mask => initializeSpd S p n mask
  | .preInit pid mask flags => preInit S p n pid mask flags
  | .finish => finish S p n
  | .pollDrom => pollDrom S p n
  | .dromSetprocessmask pid parents mask flags => dromSetprocessmask S p n pid parents mask flags
  | .closeProcinfo => { node := { n with procinfo := (Procinfo.exec S p.procinfo n.procinfo .closeShmem).1 }, error := .success }
  | .closeCpuinfo => { node := { n with cpuinfo := closeCpuinfo S n }, error := .success }

variable (adm : Process → Node → Call → Prop)

/-- One step: an operation that `adm` admits. -/
inductive Step : Node → Node → Prop
  | call {n : Node} (p : Process) (call : Call) : adm p n call → Step n (exec S p n call).node

/-- The states that operations admitted by `adm` reach from zeroed memories. -/
def Reachable (n : Node) : Prop := Lib.Run (Step S adm) {} n

def next (n : Node) (call : Process × Call) : Node := (exec S call.1 n call.2).node

variable {S p n adm}

theorem along_run : ∀ {calls : List (Process × Call)} {n : Node},
    Lib.Along (next S) (fun n call => adm call.1 n call.2) n calls → Lib.Run (Step S adm) n (calls.foldl (next S) n)
  | [], _, _ => .refl
  | call :: _, _, h => .head (.call call.1 call.2 h.1) (along_run h.2)

/-! ## Runs of a node are runs of procinfo -/

/-- The call on procinfo that an operation makes. -/
def Call.onProcinfo (p : Process) : Call → Option Procinfo.Call
  | .attach => some .extInit
  | .init mask => some (.init p.id p.preinitPid mask false)
  | .preInit pid mask flags => some (.preinit pid mask flags)
  | .finish => some (.finalize p.id p.parents p.returnStolen)
  | .pollDrom => some (.polldrom p.id p.parents)
  | .dromSetprocessmask pid parents mask flags => some (.setprocessmask pid parents mask flags)
  | .closeProcinfo => some .closeShmem
  | .closeCpuinfo => none

theorem exec_procinfo (S : System) (p : Process) (n : Node) (call : Call) :
    (exec S p n call).node.procinfo = n.procinfo ∨
      ∃ c, call.onProcinfo p = some c ∧ (exec S p n call).node.procinfo = (Procinfo.exec S p.procinfo n.procinfo c).1 := by
  cases call with
  | attach => exact .inr ⟨_, rfl, rfl⟩
  | init mask =>
    refine .inr ⟨_, rfl, ?_⟩
    rw [exec, initializeSpd]
    split
    · rfl
    · rfl
  | preInit pid mask flags =>
    refine .inr ⟨_, rfl, ?_⟩
    rw [exec, preInit]
    split
    · rfl
    · rfl
  | finish => exact .inr ⟨_, rfl, rfl⟩
  | pollDrom =>
    rw [exec, pollDrom]
    split
    · exact .inl rfl
    · refine .inr ⟨_, rfl, ?_⟩
      dsimp only
      split
      · rfl
      · rfl
  | dromSetprocessmask pid parents mask flags =>
    refine .inr ⟨_, rfl, ?_⟩
    unfold exec dromSetprocessmask
    dsimp only
    split
    · rfl
    · rfl
  | closeProcinfo => exact .inr ⟨_, rfl, rfl⟩
  | closeCpuinfo => exact .inl rfl

theorem Reachable.procinfo {admitted : Procinfo.Caller → Procinfo.Shdata → Procinfo.Call → Prop}
    (hadm : ∀ p n call c, adm p n call → call.onProcinfo p = some c → admitted p.procinfo n.procinfo c)
    (h : Reachable S adm n) : Procinfo.Reachable S admitted n.procinfo := by
  have hstart : Procinfo.Reachable S admitted ({} : Node).procinfo := .refl
  refine Lib.Run.invariant (P := fun n => Procinfo.Reachable S admitted n.procinfo) h hstart ?_
  rintro n _ hn ⟨p, call, hcall⟩
  rcases exec_procinfo S p n call with heq | ⟨c, hc, heq⟩
  · rw [heq]
    exact hn
  · rw [heq]
    exact hn.tail (.call p.procinfo c (hadm p n call c hcall hc))

def process (id : Pid) : Process := { id := id, dlbInitialized := false, procinfo := Procinfo.caller, cpuinfo := {} }

/-- The process once it is initialized, with its entry in slot `i`. -/
def running (id : Pid) (i : ℕ) : Process :=
  { id := id, procinfo := { Procinfo.caller with myPinfo := some i }, cpuinfo := {} }

end Dlb.Kernel

import Dlb.Cpuinfo.Lifecycle

/-!
# Processes that share cpuinfo

Every process goes from `shmem_cpuinfo__init` over `lewi_mask_Init` and `lewi_mask_Finalize` to
`shmem_cpuinfo__finalize`. In asynchronous mode the tasks of an operation are resolved after its lock was released: what
has not been returned yet is `pending`, and operations of other processes, or of other threads, may come in between.
-/

namespace Dlb.Cpuinfo

/-- How far a process is: it has no shared memory, it has registered its mask, it runs LeWI in polling or asynchronous
mode, it has left LeWI. -/
inductive Phase where
  | out | joined | active (async : Bool) | left (async : Bool)
deriving DecidableEq, Repr

/-- `options.mode == MODE_ASYNC` -/
def Phase.async : Phase → Bool
  | .active async | .left async => async
  | _ => false

/-- The operations of a process on the shared memory. -/
inductive Op where
  | init (preinitPid : Pid) (mask : CpuSet)
  | lewiInit (async : Bool)
  | lewi (call : Call)
  | removeRequests
  | checkCpuAvailability (before : CpuInfo) (cpuid : ℕ)
  | updateOwnership (hasTasks : Bool) (mask : CpuSet)
  | deregister
  | finalize

/-- The operations that a process can do next. Without LeWI a new process mask has no tasks. -/
def Op.allowed : Op → Phase → Bool
  | .init _ _, .out => true
  | .lewiInit _, .joined => true
  | .updateOwnership hasTasks _, .joined => !hasTasks
  | .finalize, .joined | .finalize, .left _ => true
  | .init _ _, _ | .lewiInit _, _ | .finalize, _ => false
  | _, .active _ => true
  | _, _ => false

/-- The phase after an operation; a failed `init` leaves the process out. -/
def Op.phase (failed : Bool) : Op → Phase → Phase
  | .init _ _, _ => if failed then .out else .joined
  | .lewiInit async, _ => .active async
  | .deregister, phase => .left phase.async
  | .finalize, _ => .out
  | _, phase => phase

variable (S : System)

/-- The shared data after an operation of process `pid`, with the tasks of this operation, and whether it was an `init`
that failed. -/
def Op.exec (c : Caller) (pid : Pid) (d : Shdata) (op : Op) : Shdata × Bool :=
  let d := { d with tasks := [] }
  match op with
  | .init preinitPid mask =>
    let r := Cpuinfo.init S c d pid preinitPid mask
    (r.1, r.2 ≠ .success)
  | .lewiInit async => (if async then enableRequestQueues d else d, false)
  | .lewi call => (Cpuinfo.exec S c pid d call, false)
  | .removeRequests => (shmemRemoveRequests S d pid, false)
  | .checkCpuAvailability before cpuid => ((Cpuinfo.checkCpuAvailability before d pid cpuid).1, false)
  | .updateOwnership hasTasks mask => ((shmemUpdateOwnership S hasTasks d pid mask).1, false)
  | .deregister => ((shmemDeregister S c d pid).1, false)
  | .finalize => (Cpuinfo.finalize S c d pid, false)

/-- The node: the shared memory, the phase of every process, and the returns that are not made yet. -/
structure AsyncNode where
  shm : Shdata := {}
  phase : Pid → Phase := fun _ => .out
  pending : List (Pid × CpuSet) := []

/-- An operation of a process, or the next return of the pending ones. -/
inductive Event where
  | op (c : Caller) (pid : Pid) (op : Op)
  | resolve (i : ℕ)

namespace AsyncNode

variable (n : AsyncNode)

/-- A process does an operation; in asynchronous mode the returns of its tasks follow later. -/
def perform (c : Caller) (pid : Pid) (op : Op) : AsyncNode :=
  let r := op.exec S c pid n.shm
  { shm := r.1
    phase := Function.update n.phase pid (op.phase r.2 (n.phase pid))
    pending := n.pending ++ if (n.phase pid).async then resolveCpuinfoTasks pid r.1.tasks else [] }

/-- The node after an event. An operation that the process cannot do, and a return that is not pending, do nothing. -/
def next : Event → AsyncNode
  | .op c pid op => if op.allowed (n.phase pid) then n.perform S c pid op else n
  | .resolve i =>
    match n.pending[i]? with
    | some group =>
      { n with shm := returnAsyncCpuMask S group.1 n.shm group.2, pending := n.pending.eraseIdx i }
    | none => n

/-- The calls of `shmem_cpuinfo__return_async` that an event makes satisfy `P`, each at the state in which it is made. -/
def Returns (P : Pid → Shdata → ℕ → Prop) : Event → Prop
  | .op _ _ _ => True
  | .resolve i => ∀ group ∈ n.pending[i]?, Lib.Along (returnAsync S group.1) (P group.1) n.shm (nodeCpus S group.2)

end AsyncNode

end Dlb.Cpuinfo

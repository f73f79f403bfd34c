import Dlb.Lib.Run
import Dlb.Lib.Table
import Mathlib.Algebra.Order.Group.Abs

/-!
# Classic LeWI

`lewi.c` over the pool of `comm_lend_light.c`. The shared memory has one number, `idleCpus`: the CPUs that no process
uses, negative while processes use more than there are. What a process uses is its own `myCPUS`, which the policy writes
from what the functions of the pool return. The counts are those of `int`, without its bounds; the number of threads that
the runtime is told is always `myCPUS`.
-/

namespace Dlb.Lewi

/-- The static variables of `lewi.c` and `comm_lend_light.c`, and the options that the policy reads. -/
structure Process where
  defaultCpus : ℤ := 0
  myCpus : ℤ := 0
  enabled : Bool := false
  single : Bool := false
  maxParallelism : ℤ := 0
  greedy : Bool := false
  keepCpuOnBlockingCall : Bool := false
deriving DecidableEq

/-! ## The pool -/

/-- `releaseCpus` -/
def releaseCpus (idleCpus cpus : ℤ) : ℤ := idleCpus + cpus

/-- `acquireCpus`: the pool, and how many CPUs are assigned. -/
def acquireCpus (idleCpus : ℤ) (P : Process) (currentCpus : ℤ) : ℤ × ℤ :=
  let cpus := P.defaultCpus - currentCpus
  let idleCpus := idleCpus - cpus
  if 0 < idleCpus ∧ P.greedy then (0, cpus + idleCpus + currentCpus) else (idleCpus, cpus + currentCpus)

/-- `checkIdleCpus`: the pool, and how many CPUs are assigned. -/
def checkIdleCpus (idleCpus : ℤ) (P : Process) (maxResources : ℤ) : ℤ × ℤ :=
  if idleCpus < 0 ∧ P.defaultCpus < P.myCpus then
    -- more CPUs than the available ones are used, release some
    let cpus := min |idleCpus| (P.myCpus - P.defaultCpus)
    (idleCpus + cpus, P.myCpus - cpus)
  else if 0 < idleCpus then
    let aux := min idleCpus maxResources
    (idleCpus - aux, P.myCpus + aux)
  else (idleCpus, P.myCpus)

/-! ## The policy -/

/-- `setThreads_Lend_light` -/
def Process.setThreads (P : Process) (numThreads : ℤ) : Process := { P with myCpus := numThreads }

/-- `lewi_Init`, but for the shared memory. -/
def Process.init (P : Process) (lewiNcpus : ℤ) (greedy keepCpuOnBlockingCall : Bool) : Process :=
  { P with
    defaultCpus := lewiNcpus, myCpus := lewiNcpus, enabled := true, greedy := greedy
    keepCpuOnBlockingCall := keepCpuOnBlockingCall }

/-- The operations that only deal with the pool. -/
inductive PoolOp where
  | intoBlockingCall
  | outOfBlockingCall
  | lend
  | reclaim
  | borrowCpus (maxResources : ℤ)

/-- The operations of a process with shared memory. -/
inductive Op where
  | pool (op : PoolOp)
  | borrow
  | setMaxParallelism (max : ℤ)
  | unsetMaxParallelism
  | enableDlb
  | disableDlb

variable (idleCpus : ℤ) (P : Process)

/-- The CPUs that a process keeps in a blocking call. -/
def Process.kept : ℤ := if P.keepCpuOnBlockingCall then 1 else 0

/-- `lewi_IntoBlockingCall` -/
def lewiIntoBlockingCall : ℤ × Process :=
  if P.enabled then (releaseCpus idleCpus (P.myCpus - P.kept), P.setThreads P.kept) else (idleCpus, P)

/-- What `lewi_OutOfBlockingCall` takes for the CPUs in use. -/
def Process.current : ℤ := if P.single then 1 else P.myCpus

/-- `lewi_OutOfBlockingCall` -/
def lewiOutOfBlockingCall : ℤ × Process :=
  if P.enabled then
    let r := acquireCpus idleCpus P P.current
    (r.1, P.setThreads r.2)
  else (idleCpus, P)

/-- `lewi_Lend` -/
def lewiLend : ℤ × Process := (releaseCpus idleCpus (P.myCpus - 1), P.setThreads 1)

/-- `lewi_Reclaim` -/
def lewiReclaim : ℤ × Process :=
  let r := acquireCpus idleCpus P P.myCpus
  (r.1, P.setThreads r.2)

/-- The bound of `lewi_BorrowCpus` on what it takes. -/
def Process.maxResources (maxResources : ℤ) : ℤ :=
  if 0 < P.maxParallelism then min maxResources (P.maxParallelism - P.myCpus) else maxResources

/-- `lewi_BorrowCpus` -/
def lewiBorrowCpus (maxResources : ℤ) : ℤ × Process :=
  if P.enabled ∧ !P.single then
    let r := checkIdleCpus idleCpus P (P.maxResources maxResources)
    (r.1, P.setThreads r.2)
  else (idleCpus, P)

/-- `INT_MAX` -/
def intMax : ℤ := 2147483647

/-- `lewi_Borrow` -/
def lewiBorrow : ℤ × Process := lewiBorrowCpus idleCpus P intMax

/-- `lewi_SetMaxParallelism` -/
def lewiSetMaxParallelism (max : ℤ) : ℤ × Process :=
  let r := if max < P.myCpus then (releaseCpus idleCpus (P.myCpus - max), P.setThreads max) else (idleCpus, P)
  (r.1, { r.2 with maxParallelism := max })

/-- `lewi_UnsetMaxParallelism` -/
def lewiUnsetMaxParallelism : ℤ × Process := (idleCpus, { P with maxParallelism := 0 })

/-- `lewi_EnableDLB` -/
def lewiEnableDlb : ℤ × Process := (idleCpus, { P with single := false, enabled := true })

/-- `lewi_DisableDLB`. What `acquireCpus` returns is not used. -/
def lewiDisableDlb : ℤ × Process :=
  let r :=
    if P.enabled ∧ !P.single then ((acquireCpus idleCpus P P.myCpus).1, P.setThreads P.defaultCpus) else (idleCpus, P)
  (r.1, { r.2 with enabled := false })

/-- The pool and the process after an operation. -/
def PoolOp.exec : PoolOp → ℤ × Process
  | .intoBlockingCall => lewiIntoBlockingCall idleCpus P
  | .outOfBlockingCall => lewiOutOfBlockingCall idleCpus P
  | .lend => lewiLend idleCpus P
  | .reclaim => lewiReclaim idleCpus P
  | .borrowCpus maxResources => lewiBorrowCpus idleCpus P maxResources

/-- The pool and the process after an operation. -/
def Op.exec : Op → ℤ × Process
  | .pool op => op.exec idleCpus P
  | .borrow => lewiBorrow idleCpus P
  | .setMaxParallelism max => lewiSetMaxParallelism idleCpus P max
  | .unsetMaxParallelism => lewiUnsetMaxParallelism idleCpus P
  | .enableDlb => lewiEnableDlb idleCpus P
  | .disableDlb => lewiDisableDlb idleCpus P

/-! ## The node -/

variable {π : Type*} [DecidableEq π]

/-- The shared memory and the attached processes; `attached_nprocs` is their number. -/
structure Node (π : Type*) where
  idleCpus : ℤ := 0
  attached : Finset π := ∅
  process : π → Process := fun _ => {}

namespace Node

variable (n : Node π) (p : π)

/-- `ConfigShMem`: the first process resets the pool. -/
def configShMem : Node π :=
  { n with
    idleCpus := if n.attached.card = 0 then 0 else n.idleCpus
    attached := insert p n.attached }

def write (r : ℤ × Process) : Node π := { n with idleCpus := r.1, process := Function.update n.process p r.2 }

/-- All CPUs of the processes are used or idle. -/
def Conserved : Prop :=
  n.idleCpus + ∑ p ∈ n.attached, (n.process p).myCpus = ∑ p ∈ n.attached, (n.process p).defaultCpus

instance : Decidable n.Conserved := inferInstanceAs (Decidable (_ = _))

end Node

end Dlb.Lewi

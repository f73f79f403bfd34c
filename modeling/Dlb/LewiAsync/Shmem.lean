import Dlb.Lib.Run
import Dlb.Lib.Table
import Dlb.Support.Queues

/-!
# The LeWI-async shared memory

`shmem_lewi_async.c`: a pool of idle CPUs, a queue of requests and a table of processes, each with the CPUs it started
with and the CPUs it has now. Every operation runs under the lock of the shared memory, so an operation is a function
from state to state. It is `none` where the code dereferences a null pointer or a debug build aborts in `ensure`.

Additions are those of `unsigned int`. Subtractions are guarded in the source by a comparison or a minimum.
-/

namespace Dlb.LewiAsync

/-- `lewi_process_t` -/
structure LewiProcess where
  pid : Pid := 0
  initialNcpus : ℕ := 0
  currentNcpus : ℕ := 0
deriving DecidableEq, Repr

/-- `lewi_async_shdata_t`. The memory is zeroed when created, so a slot never written is empty. -/
structure Shdata where
  idleCpus : ℕ := 0
  attachedNprocs : ℕ := 0
  requests : List LewiRequest := []
  maxProcesses : ℕ := 0
  procListHead : ℕ := 0
  processes : ℕ → LewiProcess := fun _ => {}

/-- What the operations take from outside: the C library's `qsort`, and whether the build is a debug one. -/
structure Env where
  qsort : Lib.Qsort
  debug : Bool

/-- The static variables of the calling process: whether `shm_handler` is set, the slot that `my_process` points to,
and `max_processes`. -/
structure Caller where
  shmHandler : Bool := true
  myProcess : Option ℕ := none
  maxProcesses : ℕ

/-- What a call returns: the code and, where it writes them, the output arguments. -/
structure Output where
  error : DlbError
  newNcpus : Option ℕ := none
  requests : List LewiRequest := []
  prevRequested : Option ℕ := none
deriving DecidableEq, Repr

/-- Write slot `i` of the table. -/
def Shdata.set (s : Shdata) (i : ℕ) (p : LewiProcess) : Shdata :=
  { s with processes := Function.update s.processes i p }

/-- `process->current_ncpus += ncpus` -/
def Shdata.addNcpus (s : Shdata) (i ncpus : ℕ) : Shdata :=
  s.set i { s.processes i with currentNcpus := addU32 (s.processes i).currentNcpus ncpus }

/-- `process->current_ncpus -= ncpus` -/
def Shdata.subNcpus (s : Shdata) (i ncpus : ℕ) : Shdata :=
  s.set i { s.processes i with currentNcpus := (s.processes i).currentNcpus - ncpus }

/-- `get_process`: the caller's own slot if it matches, else the first match below the upper bound. -/
def getProcess (c : Caller) (s : Shdata) (pid : Pid) : Option ℕ :=
  let iterate := Lib.scan s.procListHead fun p => (s.processes p).pid = pid
  match c.myProcess with
  | some i => if (s.processes i).pid = pid then some i else iterate
  | none => iterate

/-! ## Init -/

/-- `shmem_lewi_async__init` -/
def init (c : Caller) (s : Shdata) (pid : Pid) (ncpus : ℕ) : Shdata × Output :=
  let s1 : Shdata :=
    if s.attachedNprocs + 1 = 1 then
      -- first attached process, initialize common structures
      { s with attachedNprocs := 1, maxProcesses := c.maxProcesses, idleCpus := 0, requests := [] }
    else { s with attachedNprocs := s.attachedNprocs + 1 }
  if s1.maxProcesses = c.maxProcesses then
    match Lib.scan c.maxProcesses fun p => (s1.processes p).pid = 0 with
    | some p =>
      let s2 := { s1 with procListHead := max s1.procListHead (p + 1) }
      (s2.set p { pid := pid, initialNcpus := ncpus, currentNcpus := ncpus }, { error := .success })
    | none => ({ s1 with attachedNprocs := s1.attachedNprocs - 1 }, { error := .errNomem })
  else ({ s1 with attachedNprocs := s1.attachedNprocs - 1 }, { error := .errInit })

/-! ## Lend -/

/-- The resolved requests of `lend_ncpus_to_shmem`: each target gets its CPUs, and its entry is updated to what the
target has now. -/
def resolveRequests (c : Caller) : Shdata → List LewiRequest → Option (Shdata × List LewiRequest)
  | s, [] => some (s, [])
  | s, request :: rest => do
    let target ← getProcess c s request.pid
    let s1 := s.addNcpus target request.howmany
    let (s2, out) ← resolveRequests c s1 rest
    return (s2, ⟨request.pid, (s1.processes target).currentNcpus⟩ :: out)

/-- `lend_ncpus_to_shmem` -/
def lendNcpusToShmem (E : Env) (c : Caller) (s : Shdata) (ncpus maxreqs : ℕ) :
    Option (Shdata × List LewiRequest) :=
  if queueLewiReqsSize s.requests = 0 then
    some ({ s with idleCpus := addU32 s.idleCpus ncpus }, [])
  else do
    let r ← queueLewiReqsPopNcpus E.qsort E.debug s.requests ncpus maxreqs
    resolveRequests c { s with requests := r.queue, idleCpus := addU32 s.idleCpus r.ncpus } r.requests

/-- CPUs that process `p` lends of those it does not own. -/
def ncpusLentNotOwned (p : LewiProcess) (ncpus : ℕ) : ℕ :=
  if p.initialNcpus < p.currentNcpus then min (p.currentNcpus - p.initialNcpus) ncpus else 0

/-- The part of a lend that the two lend operations share: drop the requests of the process, take the CPUs from it,
give them to the shared memory. -/
def lendFrom (E : Env) (c : Caller) (s : Shdata) (i : ℕ) (pid : Pid) (ncpus maxreqs : ℕ) :
    Option (Shdata × List LewiRequest × ℕ) := do
  let removed := queueLewiReqsRemove s.requests pid
  let prevRequested := addU32 (ncpusLentNotOwned (s.processes i) ncpus) removed.1
  let (s1, out) ← lendNcpusToShmem E c ({ s with requests := removed.2 }.subNcpus i ncpus) ncpus maxreqs
  return (s1, out, prevRequested)

/-- `shmem_lewi_async__lend_cpus` -/
def lendCpus (E : Env) (c : Caller) (s : Shdata) (pid : Pid) (ncpus maxreqs : ℕ) : Option (Shdata × Output) :=
  if !c.shmHandler then some (s, { error := .errNoshmem }) else
  match getProcess c s pid with
  | none => some (s, { error := .errNoproc })
  | some i =>
    if ncpus = 0 then some (s, { error := .noupdt, newNcpus := some 0, prevRequested := some 0 })
    else if (s.processes i).currentNcpus < ncpus then
      some (s, { error := .errPerm, newNcpus := some 0, prevRequested := some 0 })
    else do
      let (s1, out, prev) ← lendFrom E c s i pid ncpus maxreqs
      return (s1, { error := .success, newNcpus := some ((s.processes i).currentNcpus - ncpus),
                    requests := out, prevRequested := some prev })

/-- `shmem_lewi_async__lend_keep_cpus` -/
def lendKeepCpus (E : Env) (c : Caller) (s : Shdata) (pid : Pid) (newNcpus maxreqs : ℕ) :
    Option (Shdata × Output) :=
  if !c.shmHandler then some (s, { error := .errNoshmem }) else
  match getProcess c s pid with
  | none => some (s, { error := .errNoproc })
  | some i =>
    if (s.processes i).currentNcpus < newNcpus then some (s, { error := .errPerm, prevRequested := some 0 })
    else if newNcpus = (s.processes i).currentNcpus then
      some (s, { error := .noupdt, prevRequested := some 0 })
    else do
      let (s1, out, prev) ← lendFrom E c s i pid ((s.processes i).currentNcpus - newNcpus) maxreqs
      return (s1, { error := .success, requests := out, prevRequested := some prev })

/-! ## Reclaim -/

/-- The queue that `reclaim_from_shmem` builds: the CPU surplus of each process. -/
def surplusQueue (s : Shdata) : List LewiRequest :=
  (List.range s.procListHead).foldl (fun surplus p =>
    let target := s.processes p
    if target.pid ≠ 0 ∧ target.initialNcpus < target.currentNcpus then
      (queueLewiReqsPush surplus target.pid (target.currentNcpus - target.initialNcpus)).2
    else surplus) []

/-- The victims of `reclaim_from_shmem`: each loses its CPUs and gets a request for them, and its entry is updated to
what it has now. -/
def takeFromVictims (c : Caller) : Shdata → List LewiRequest → Option (Shdata × List LewiRequest)
  | s, [] => some (s, [])
  | s, request :: rest => do
    let target ← getProcess c s request.pid
    let s1 := s.subNcpus target request.howmany
    let s2 := { s1 with requests := (queueLewiReqsPush s1.requests request.pid request.howmany).2 }
    let (s3, out) ← takeFromVictims c s2 rest
    return (s3, ⟨request.pid, (s1.processes target).currentNcpus⟩ :: out)

/-- `reclaim_from_shmem` for the process in slot `i`. On failure the popped list stays in the output. -/
def reclaimFromShmem (E : Env) (c : Caller) (s : Shdata) (i ncpus maxreqs : ℕ) :
    Option (Shdata × DlbError × List LewiRequest) := do
  ensure E.debug (addU32 (s.processes i).currentNcpus ncpus ≤ (s.processes i).initialNcpus)
  ensure E.debug (s.idleCpus = 0)
  ensure E.debug (0 < ncpus)
  let r ← queueLewiReqsPopNcpus E.qsort E.debug (surplusQueue s) ncpus maxreqs
  if r.ncpus = 0 then
    let (s1, out) ← takeFromVictims c s r.requests
    return (s1.addNcpus i ncpus, .success, out)
  else
    return (s, .errReqst, r.requests)

/-- "Borrow first": take up to `ncpus` idle CPUs for the process in slot `i`; the number taken. -/
def borrowFirst (s : Shdata) (i ncpus : ℕ) : Shdata × ℕ :=
  let n := min s.idleCpus ncpus
  if 0 < n then ({ s with idleCpus := s.idleCpus - n }.addNcpus i n, n) else (s, 0)

/-- "Reclaim later": `ncpus` CPUs, if any are still wanted; `error` is the code so far. -/
def reclaimLater (E : Env) (c : Caller) (s : Shdata) (i ncpus maxreqs : ℕ) (error : DlbError) :
    Option (Shdata × DlbError × List LewiRequest) :=
  if 0 < ncpus then reclaimFromShmem E c s i ncpus maxreqs else some (s, error, [])

/-- "Borrow first, reclaim later" up to `ncpus`, as `reset_process` and `shmem_lewi_async__reclaim` do. -/
def borrowAndReclaim (E : Env) (c : Caller) (s : Shdata) (i ncpus maxreqs : ℕ) :
    Option (Shdata × DlbError × List LewiRequest) :=
  let (s1, n) := borrowFirst s i ncpus
  let error : DlbError := if 0 < n then .success else .noupdt
  reclaimLater E c s1 i (ncpus - n) maxreqs error

/-- "Attend previous requests": resolve them with the idle CPUs and push the rest. -/
def attendPrevRequested (s : Shdata) (i : ℕ) (pid : Pid) (prevRequested : ℕ) : Shdata :=
  let (s1, n) := borrowFirst s i prevRequested
  if 0 < prevRequested - n then
    { s1 with requests := (queueLewiReqsPush s1.requests pid (prevRequested - n)).2 }
  else s1

/-- `shmem_lewi_async__reclaim` -/
def reclaim (E : Env) (c : Caller) (s : Shdata) (pid : Pid) (maxreqs prevRequested : ℕ) :
    Option (Shdata × Output) :=
  if !c.shmHandler then some (s, { error := .errNoshmem }) else
  match getProcess c s pid with
  | none => some (s, { error := .errNoproc })
  | some i =>
    if (s.processes i).currentNcpus < (s.processes i).initialNcpus then do
      let (s1, error, out) ←
        borrowAndReclaim E c s i ((s.processes i).initialNcpus - (s.processes i).currentNcpus) maxreqs
      let s2 := if 0 < prevRequested then attendPrevRequested s1 i pid prevRequested else s1
      return (s2, { error := error, newNcpus := some (s2.processes i).currentNcpus, requests := out })
    else some (s, { error := .noupdt, newNcpus := some (s.processes i).currentNcpus })

/-! ## Acquire, borrow -/

/-- How many of the `ncpus` CPUs still wanted `shmem_lewi_async__acquire_cpus` reclaims. -/
def ncpusToReclaim (p : LewiProcess) (ncpus : ℕ) : ℕ :=
  min ncpus (if p.currentNcpus < p.initialNcpus then p.initialNcpus - p.currentNcpus else 0)

/-- `shmem_lewi_async__acquire_cpus` -/
def acquireCpus (E : Env) (c : Caller) (s : Shdata) (pid : Pid) (ncpus maxreqs : ℕ) : Option (Shdata × Output) :=
  if !c.shmHandler then some (s, { error := .errNoshmem }) else
  if ncpus = 0 then some (s, { error := .noupdt }) else
  match getProcess c s pid with
  | none => some (s, { error := .errNoproc })
  | some i => do
    -- borrow first
    let (s1, n) := borrowFirst s i ncpus
    let ncpus1 := ncpus - n
    let error1 : DlbError := if 0 < n then .success else .noupdt
    -- reclaim later
    let m := ncpusToReclaim (s1.processes i) ncpus1
    let (s2, error2, out) ← reclaimLater E c s1 i m maxreqs error1
    let ncpus2 := if 0 < m ∧ error2 = .success then ncpus1 - m else ncpus1
    -- add request for the rest
    let s3 := if 0 < ncpus2 then { s2 with requests := (queueLewiReqsPush s2.requests pid ncpus2).2 } else s2
    let error3 : DlbError := if 0 < ncpus2 then .noted else error2
    return (s3, { error := error3, newNcpus := some (s3.processes i).currentNcpus, requests := out })

/-- `shmem_lewi_async__borrow_cpus` -/
def borrowCpus (c : Caller) (s : Shdata) (pid : Pid) (ncpus : ℕ) : Shdata × Output :=
  if !c.shmHandler then (s, { error := .errNoshmem }) else
  match getProcess c s pid with
  | none => (s, { error := .errNoproc })
  | some i =>
    let (s1, n) := borrowFirst s i ncpus
    (s1, { error := if 0 < n then .success else .noupdt, newNcpus := some (s1.processes i).currentNcpus })

/-! ## Reset, finalize, requests -/

/-- `reset_process` for the process in slot `i`: the state, the code, the output list and `*prev_requested`. -/
def resetProcess (E : Env) (c : Caller) (s : Shdata) (i maxreqs : ℕ) :
    Option (Shdata × DlbError × List LewiRequest × ℕ) := do
  let process := s.processes i
  let removed := queueLewiReqsRemove s.requests process.pid
  let s1 := { s with requests := removed.2 }
  if process.initialNcpus < process.currentNcpus then
    -- lend excess CPUs
    let ncpusToLend := process.currentNcpus - process.initialNcpus
    let (s2, out) ← lendNcpusToShmem E c (s1.subNcpus i ncpusToLend) ncpusToLend maxreqs
    return (s2, .success, out, addU32 removed.1 ncpusToLend)
  else if process.currentNcpus < process.initialNcpus then
    let (s2, error, out) ← borrowAndReclaim E c s1 i (process.initialNcpus - process.currentNcpus) maxreqs
    return (s2, error, out, removed.1)
  else return (s1, .noupdt, [], removed.1)

/-- `shmem_lewi_async__reset` -/
def reset (E : Env) (c : Caller) (s : Shdata) (pid : Pid) (maxreqs : ℕ) : Option (Shdata × Output) :=
  if !c.shmHandler then some (s, { error := .errNoshmem }) else
  match getProcess c s pid with
  | none => some (s, { error := .errNoproc })
  | some i =>
    if (s.processes i).initialNcpus ≠ (s.processes i).currentNcpus then do
      let (s1, error, out, prev) ← resetProcess E c s i maxreqs
      return (s1, { error := error, newNcpus := some (s1.processes i).currentNcpus, requests := out,
                    prevRequested := some prev })
    else some (s, { error := .noupdt, newNcpus := some (s.processes i).currentNcpus, prevRequested := some 0 })

/-- `shmem_lewi_async__finalize`. It returns nothing; the code of the output is not used. -/
def finalize (E : Env) (c : Caller) (s : Shdata) (pid : Pid) (maxreqs : ℕ) : Option (Shdata × Output) :=
  if !c.shmHandler then some (s, { error := .success }) else
  match getProcess c s pid with
  | none => some (s, { error := .success })
  | some i => do
    let (s1, _, out, _) ← resetProcess E c s i maxreqs
    return ({ s1.set i {} with attachedNprocs := s1.attachedNprocs - 1 },
      { error := .success, newNcpus := some (s.processes i).initialNcpus, requests := out })

/-- `shmem_lewi_async__remove_requests` -/
def removeRequests (c : Caller) (s : Shdata) (pid : Pid) : Shdata :=
  if !c.shmHandler then s else { s with requests := (queueLewiReqsRemove s.requests pid).2 }

/-! ## The system -/

inductive Op where
  | init (pid : Pid) (ncpus : ℕ)
  | lendCpus (pid : Pid) (ncpus maxreqs : ℕ)
  | lendKeepCpus (pid : Pid) (newNcpus maxreqs : ℕ)
  | reclaim (pid : Pid) (maxreqs prevRequested : ℕ)
  | acquireCpus (pid : Pid) (ncpus maxreqs : ℕ)
  | borrowCpus (pid : Pid) (ncpus : ℕ)
  | reset (pid : Pid) (maxreqs : ℕ)
  | removeRequests (pid : Pid)
  | finalize (pid : Pid) (maxreqs : ℕ)

/-- The effect of a call on the shared memory, and what it returns. -/
def exec (E : Env) (c : Caller) (s : Shdata) : Op → Option (Shdata × Output)
  | .init pid ncpus => some (init c s pid ncpus)
  | .lendCpus pid ncpus maxreqs => lendCpus E c s pid ncpus maxreqs
  | .lendKeepCpus pid newNcpus maxreqs => lendKeepCpus E c s pid newNcpus maxreqs
  | .reclaim pid maxreqs prevRequested => reclaim E c s pid maxreqs prevRequested
  | .acquireCpus pid ncpus maxreqs => acquireCpus E c s pid ncpus maxreqs
  | .borrowCpus pid ncpus => some (borrowCpus c s pid ncpus)
  | .reset pid maxreqs => reset E c s pid maxreqs
  | .removeRequests pid => some (removeRequests c s pid, { error := .success })
  | .finalize pid maxreqs => finalize E c s pid maxreqs

/-- One step: a call that `adm` admits, or the removal of the memory after the last process has left
(`close_shmem`). -/
inductive Step (E : Env) (adm : Caller → Shdata → Op → Prop) : Shdata → Shdata → Prop
  | call {s s' : Shdata} {out : Output} (c : Caller) (op : Op) : adm c s op →
      exec E c s op = some (s', out) → Step E adm s s'
  | unlink {s : Shdata} : s.attachedNprocs = 0 → Step E adm s {}

/-- The states that calls admitted by `adm` reach from zeroed memory. -/
def Reachable (E : Env) (adm : Caller → Shdata → Op → Prop) (s : Shdata) : Prop := Lib.Run (Step E adm) {} s

/-- Run a list of calls, as long as `adm` admits them. -/
def replay (E : Env) (adm : Caller → Shdata → Op → Prop) [∀ c s, DecidablePred (adm c s)] :
    List (Caller × Op) → Shdata → Option Shdata
  | [], s => some s
  | (c, op) :: rest, s => if adm c s op then (exec E c s op).bind fun r => replay E adm rest r.1 else none

theorem replay_run {E : Env} {adm : Caller → Shdata → Op → Prop} [∀ c s, DecidablePred (adm c s)]
    {calls : List (Caller × Op)} {s s' : Shdata} (h : replay E adm calls s = some s') :
    Lib.Run (Step E adm) s s' := by
  induction calls generalizing s with
  | nil => cases h; exact .refl
  | cons call rest ih =>
    obtain ⟨c, op⟩ := call
    simp only [replay] at h
    split at h
    · rename_i hadm
      obtain ⟨⟨s1, out⟩, he, hrest⟩ := Option.bind_eq_some_iff.mp h
      exact .head (.call c op hadm he) (ih hrest)
    · cases h

end Dlb.LewiAsync

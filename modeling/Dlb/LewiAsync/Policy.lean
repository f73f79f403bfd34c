import Dlb.LewiAsync.Conservation

/-!
# The LeWI-async policy and what it announces

`lewi_async.c` runs an operation of the shared memory and then tells every listed process how many threads to use
(`shmem_async_set_num_cpus`). The list comes from the operation. When a reclaim fails, the list holds the victims that
it had already picked, with the CPUs it would have taken from each: it is empty exactly when no victim could be picked
(`failed_reclaim_silent_iff`). `lewi_async_AcquireCpus` goes on with `DLB_NOTED` and announces these numbers
(`failed_reclaim_announced`).
-/

namespace Dlb.LewiAsync

/-! ## The policy -/

/-- `lewi_info_t` -/
structure LewiInfo where
  prevRequested : ℕ := 0
deriving DecidableEq, Repr

/-- What a call of the policy returns and does outside the shared memory: the code, the saved requests, the argument of
`update_threads` and the messages to the helper threads of other processes. -/
structure Effect where
  error : DlbError
  info : LewiInfo := {}
  numThreads : Option ℕ := none
  messages : List LewiRequest := []
deriving DecidableEq, Repr

/-- `lewi_async_set_num_threads`: the count has to be positive as an `int`. -/
def setNumThreads (numThreads : ℕ) : Option ℕ := if numThreads < 2 ^ 31 then some numThreads else none

/-- The part that the calls share: set the number of threads and send a message for every listed process. -/
def announce (error : DlbError) (info : LewiInfo) (o : Output) : Effect :=
  { error := error, info := info, numThreads := o.newNcpus.bind setNumThreads, messages := o.requests }

/-- `lewi_async_AcquireCpus`. The value `0` is `DLB_DELETE_REQUESTS`; the array has `node_size` entries. -/
def lewiAsyncAcquireCpus (E : Env) (c : Caller) (s : Shdata) (nodeSize : ℕ) (pid : Pid) (info : LewiInfo) (ncpus : ℤ) :
    Option (Shdata × Effect) :=
  if ncpus = 0 then some (removeRequests c s pid, { error := .success, info := {} })
  else if 0 < ncpus then do
    let (s1, o) ← acquireCpus E c s pid (addU32 ncpus.toNat info.prevRequested) nodeSize
    return (s1, if o.error = .success ∨ o.error = .noted then announce o.error {} o else { error := o.error })
  else some (s, { error := .errUnknown, info := info })

/-- `prev_requested` is saved when it is not zero, in place of what was saved before. -/
def savePrevRequested (info : LewiInfo) (prevRequested : ℕ) : LewiInfo :=
  if 0 < prevRequested then ⟨prevRequested⟩ else info

/-- `lewi_async_Lend_keep_cpus` -/
def lewiAsyncLendKeepCpus (E : Env) (c : Caller) (s : Shdata) (nodeSize : ℕ) (pid : Pid) (info : LewiInfo)
    (newNcpus : ℕ) : Option (Shdata × Effect) := do
  let (s1, o) ← lendKeepCpus E c s pid newNcpus nodeSize
  return (s1, if o.error = .success
    then announce o.error (savePrevRequested info (o.prevRequested.getD 0)) { o with newNcpus := some newNcpus }
    else { error := o.error, info := info })

/-- `lewi_async_Lend`: everything except one CPU. -/
def lewiAsyncLend (E : Env) (c : Caller) (s : Shdata) (nodeSize : ℕ) (pid : Pid) (info : LewiInfo) :
    Option (Shdata × Effect) := lewiAsyncLendKeepCpus E c s nodeSize pid info 1

/-- `lewi_async_IntoBlockingCall`: with `lewi_keep_cpu_on_blocking_call` one CPU stays, else none. -/
def lewiAsyncIntoBlockingCall (E : Env) (c : Caller) (s : Shdata) (nodeSize : ℕ) (pid : Pid) (info : LewiInfo)
    (keepCpu : Bool) : Option (Shdata × Effect) := do
  let (s1, effect) ← lewiAsyncLendKeepCpus E c s nodeSize pid info (if keepCpu then 1 else 0)
  return (s1, { effect with error := .success })

/-- `lewi_async_LendCpus` -/
def lewiAsyncLendCpus (E : Env) (c : Caller) (s : Shdata) (nodeSize : ℕ) (pid : Pid) (info : LewiInfo) (ncpus : ℤ) :
    Option (Shdata × Effect) :=
  if ncpus < 0 then some (s, { error := .errPerm, info := info })
  else if ncpus = 0 then some (s, { error := .noupdt, info := info })
  else do
    let (s1, o) ← lendCpus E c s pid ncpus.toNat nodeSize
    return (s1, if o.error = .success then announce o.error (savePrevRequested info (o.prevRequested.getD 0)) o
      else { error := o.error, info := info })

/-- `lewi_async_Reclaim` -/
def lewiAsyncReclaim (E : Env) (c : Caller) (s : Shdata) (nodeSize : ℕ) (pid : Pid) (info : LewiInfo) :
    Option (Shdata × Effect) := do
  let (s1, o) ← reclaim E c s pid nodeSize info.prevRequested
  return (s1, if o.error = .success then announce o.error {} o else { error := o.error, info := info })

/-- `lewi_async_Disable` -/
def lewiAsyncDisable (E : Env) (c : Caller) (s : Shdata) (nodeSize : ℕ) (pid : Pid) (info : LewiInfo) :
    Option (Shdata × Effect) := do
  let (s1, o) ← reset E c s pid nodeSize
  let prevRequested := o.prevRequested.getD 0
  let saved : LewiInfo := if 0 < prevRequested then ⟨prevRequested⟩ else info
  return (s1, if o.error = .success then announce o.error saved o
    else { error := if o.error = .noupdt then .success else o.error, info := info })

/-- `lewi_async_Enable`: the saved requests are the argument of `lewi_async_AcquireCpus`, which adds them once more. -/
def lewiAsyncEnable (E : Env) (c : Caller) (s : Shdata) (nodeSize : ℕ) (pid : Pid) (info : LewiInfo) :
    Option (Shdata × Effect) :=
  if 0 < info.prevRequested then do
    let (s1, effect) ← lewiAsyncAcquireCpus E c s nodeSize pid info (subToInt info.prevRequested 0)
    return (s1, if effect.error = .success ∨ effect.error = .noted then { effect with info := {} } else effect)
  else some (s, { error := .success, info := info })

/-- `lewi_async_Finalize`. It announces the list whatever the reset returned. -/
def lewiAsyncFinalize (E : Env) (c : Caller) (s : Shdata) (nodeSize : ℕ) (pid : Pid) : Option (Shdata × Effect) := do
  let (s1, o) ← finalize E c s pid nodeSize
  return (s1, announce .success {} o)

/-! ## A failed reclaim -/

section Failed

variable {E : Env} {c : Caller} {s s' : Shdata} {i n maxreqs : ℕ} {out : List LewiRequest}

theorem reclaimFromShmem_failed (h : reclaimFromShmem E c s i n maxreqs = some (s', .errReqst, out)) :
    s' = s ∧ ∃ r, queueLewiReqsPopNcpus E.qsort E.debug (surplusQueue s) n maxreqs = some r ∧ r.ncpus ≠ 0 ∧
      r.requests = out := by
  unfold reclaimFromShmem at h
  obtain ⟨-, -, h⟩ := Option.bind_eq_some_iff.mp h
  obtain ⟨-, -, h⟩ := Option.bind_eq_some_iff.mp h
  obtain ⟨-, -, h⟩ := Option.bind_eq_some_iff.mp h
  obtain ⟨r, hpop, h⟩ := Option.bind_eq_some_iff.mp h
  split at h
  · obtain ⟨⟨s1, out1⟩, -, h⟩ := Option.bind_eq_some_iff.mp h
    cases h
  · rename_i hr
    cases h
    exact ⟨rfl, r, hpop, hr, rfl⟩

theorem surplusQueue_eq_nil_iff
    (hd : ∀ i j, (s.processes i).pid ≠ 0 → (s.processes i).pid = (s.processes j).pid → i = j) : surplusQueue s = [] ↔
      ∀ p < s.procListHead, (s.processes p).pid ≠ 0 → (s.processes p).currentNcpus ≤ (s.processes p).initialNcpus := by
  rw [surplusQueue_eq hd, List.take_eq_nil_iff]
  have hcap : queueLewiReqsCapacity - 1 ≠ 0 := by decide
  simp only [hcap, false_or, List.eq_nil_iff_forall_not_mem, mem_surplusEntries]
  constructor
  · intro h p hp hpid
    by_contra hlt
    exact h (surplusEntry s p) ⟨p, hp, by simp only [hasSurplus, decide_eq_true_eq]; exact ⟨hpid, by omega⟩, rfl⟩
  · rintro h r ⟨p, hp, hs, -⟩
    simp only [hasSurplus, decide_eq_true_eq] at hs
    have := h p hp hs.1
    omega

theorem surplusQueue_pos (hd : ∀ i j, (s.processes i).pid ≠ 0 → (s.processes i).pid = (s.processes j).pid → i = j) :
    ∀ r ∈ surplusQueue s, 0 < r.howmany := by
  intro r hr
  rw [surplusQueue_eq hd] at hr
  obtain ⟨p, -, hp, rfl⟩ := mem_surplusEntries.mp ((List.take_sublist _ _).subset hr)
  simp only [hasSurplus, decide_eq_true_eq] at hp
  simp only [surplusEntry]
  omega

theorem pop_requests_eq_nil_iff {queue : List LewiRequest} {r : Popped}
    (h : queueLewiReqsPopNcpus E.qsort E.debug queue n maxreqs = some r) (hn : 0 < n)
    (hpos : ∀ x ∈ queue, 0 < x.howmany) : r.requests = [] ↔ maxreqs = 0 ∨ queue = [] := by
  rcases pop_cases h with ⟨rfl, rfl⟩ | ⟨hne, sorted, rfl, rfl⟩
  · simp
  · have hperm := (List.reverse_perm _).trans (E.qsort.perm sortQueueLewiReqs queue)
    constructor
    · intro hnil
      by_contra hor
      rw [not_or] at hor
      refine popLoop_ne_nil _ n 0 ?_ (Nat.pos_of_ne_zero hor.1) hn (fun x hx => hpos x (hperm.subset hx)) hnil
      intro h0
      rw [h0] at hperm
      exact hne hperm.symm.eq_nil
    · rintro (rfl | h0)
      · dsimp only
        cases (E.qsort.sort sortQueueLewiReqs queue).reverse with
        | nil => rfl
        | cons x rest => rw [popLoop_cons, if_neg (by omega)]
      · exact absurd h0 hne

/-- **When a failed reclaim is silent.** The processes keep their CPUs whenever `reclaim_from_shmem` returns
`DLB_ERR_REQST`; it lists no victim if and only if the array has no room at all or no process has a surplus. -/
theorem failed_reclaim_silent_iff
    (hd : ∀ i j, (s.processes i).pid ≠ 0 → (s.processes i).pid = (s.processes j).pid → i = j)
    (h : reclaimFromShmem E c s i n maxreqs = some (s', .errReqst, out)) : (s' = s ∧ out = []) ↔
      (maxreqs = 0 ∨ ∀ p < s.procListHead, (s.processes p).pid ≠ 0 →
        (s.processes p).currentNcpus ≤ (s.processes p).initialNcpus) := by
  obtain ⟨rfl, r, hpop, hr, rfl⟩ := reclaimFromShmem_failed h
  have hn : 0 < n := by have := pop_total hpop; omega
  rw [pop_requests_eq_nil_iff hpop hn (surplusQueue_pos hd), surplusQueue_eq_nil_iff hd]
  simp

end Failed

/-- A reclaim that has no room for a victim fails and lists none. -/
theorem failed_reclaim_silent_no_room : ∃ s s' out, replay release (fun c s op => Admitted s op ∧ Orderly c s op)
    (calls [.init 1 2, .init 2 1, .lendCpus 1 2 4, .borrowCpus 2 2]) {} = some s ∧
    reclaimFromShmem release { maxProcesses := 4 } s 0 2 0 = some (s', .errReqst, out) ∧ s' = s ∧ out = [] := by
  obtain ⟨s, hs, hrec⟩ := Option.map_eq_some_iff.mp (by decide : ((replay release
    (fun c s op => Admitted s op ∧ Orderly c s op) (calls [.init 1 2, .init 2 1, .lendCpus 1 2 4, .borrowCpus 2 2])
      {}).map fun s => (reclaimFromShmem release { maxProcesses := 4 } s 0 2 0).map fun r => r.2.1) =
        some (some .errReqst))
  obtain ⟨⟨s', e, out⟩, h, rfl⟩ := Option.map_eq_some_iff.mp hrec
  have hd := (reachable_inv (replay_run hs)).1.distinct
  exact ⟨s, s', out, hs, h, (failed_reclaim_silent_iff hd h).mpr (Or.inl rfl)⟩

/-- **A failed reclaim is announced.** Process 1 lends its two CPUs to the processes 2 and 3 and acquires them again
with an array of one entry: the reclaim fails after it has listed one victim, and the victim, which keeps its two CPUs,
is told to use one. -/
theorem failed_reclaim_announced : ¬∀ s s1 s' c i n maxreqs out info effect,
    Reachable release (fun c s op => Admitted s op ∧ Orderly c s op) s →
    reclaimFromShmem release c s i n maxreqs = some (s', .errReqst, out) →
    lewiAsyncAcquireCpus release c s maxreqs (s.processes i).pid info n = some (s1, effect) →
    s' = s ∧ out = [] ∧ ∀ m ∈ effect.messages, ∀ j ∈ getProcess c s1 m.pid,
      m.howmany = (s1.processes j).currentNcpus := by
  intro h
  have hrun : ((replay release (fun c s op => Admitted s op ∧ Orderly c s op)
      (calls [.init 1 2, .init 2 1, .init 3 1, .lendCpus 1 2 4, .borrowCpus 2 1, .borrowCpus 3 1]) {}).map fun s =>
        ((reclaimFromShmem release { maxProcesses := 4 } s 0 2 1).map fun r => r.2.1,
          (lewiAsyncAcquireCpus release { maxProcesses := 4 } s 1 (s.processes 0).pid {} 2).map fun r =>
            (decide (∀ m ∈ r.2.messages, ∀ j ∈ getProcess { maxProcesses := 4 } r.1 m.pid,
              m.howmany = (r.1.processes j).currentNcpus)))) = some (some .errReqst, some false) := by decide
  obtain ⟨s, hs, hp⟩ := Option.map_eq_some_iff.mp hrun
  obtain ⟨h1, h2⟩ := Prod.mk.inj hp
  obtain ⟨⟨s', e, out⟩, hrec, rfl⟩ := Option.map_eq_some_iff.mp h1
  obtain ⟨⟨s1, effect⟩, hacq, hbad⟩ := Option.map_eq_some_iff.mp h2
  exact of_decide_eq_false hbad (h s s1 s' _ 0 2 1 out {} effect (replay_run hs) hrec hacq).2.2

end Dlb.LewiAsync

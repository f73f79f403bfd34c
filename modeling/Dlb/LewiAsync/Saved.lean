import Dlb.LewiAsync.Policy
import Dlb.LewiAsync.Service

/-!
# The saved requests

A lend drops the requests of the process, and the CPUs that it lends beyond its own may be gone; the policy saves how
many CPUs that is in `prev_requested`, for the next call that asks for CPUs. A call that saves replaces what an
earlier one saved, and a reset that fails saves nothing. `saved_iff` says for a whole run when the saved number is the
number of CPUs that the calls have withdrawn; `lent_twice` is a run where it is not.
-/

namespace Dlb.LewiAsync

open List Function

open Lib (Post Along)

/-! ## What a call withdraws -/

/-- The CPUs of slot `i` beyond its initial ones. -/
def beyond (s : Shdata) (i : ℕ) : ℕ := (s.processes i).currentNcpus - (s.processes i).initialNcpus

/-- The CPUs that left the requests of `pid`, and those beyond its initial ones that it has no more. -/
def withdrawn (s s' : Shdata) (pid : Pid) (i : ℕ) : ℕ :=
  (amount s.requests pid - amount s'.requests pid) + (beyond s i - beyond s' i)

/-- The state of the system as one process sees it, with the number of CPUs that its calls have withdrawn. -/
structure Ledger where
  shdata : Shdata
  info : LewiInfo
  withdrawn : ℕ

inductive Withdrawal where
  | lend
  | lendCpus (ncpus : ℤ)
  | intoBlockingCall (keepCpu : Bool)
  | disable

/-- A call of the process, or an operation of another one. -/
inductive SavedEvent where
  | own (w : Withdrawal)
  | other (c : Caller) (op : Op)

def Op.pid : Op → Pid
  | .init pid _ | .lendCpus pid _ _ | .lendKeepCpus pid _ _ | .reclaim pid _ _ | .acquireCpus pid _ _ | .borrowCpus pid _
  | .reset pid _ | .removeRequests pid | .finalize pid _ => pid

/-- The CPUs that a call lends of the `ncpus` that the process has. `disable` is a reset, not a lend. -/
def Withdrawal.lends (ncpus : ℕ) : Withdrawal → ℕ
  | .lend => ncpus - 1
  | .lendCpus n => if n.toNat ≤ ncpus then n.toNat else 0
  | .intoBlockingCall keepCpu => ncpus - if keepCpu then 1 else 0
  | .disable => 0

/-- What a call takes from the process `pid` in slot `i`. -/
def takes (s : Shdata) (pid : Pid) (i : ℕ) : Withdrawal → ℕ
  | .disable =>
    if (s.processes i).initialNcpus = (s.processes i).currentNcpus then 0 else beyond s i + amount s.requests pid
  | w =>
    if w.lends (s.processes i).currentNcpus = 0 then 0
    else min (beyond s i) (w.lends (s.processes i).currentNcpus) + amount s.requests pid

/-- The idle CPUs, and the CPUs that others have beyond their own as `queue_lewi_reqs_pop_ncpus` hands them out, cover
what slot `i` lacks. -/
def Found (E : Env) (nodeSize : ℕ) (s : Shdata) (i : ℕ) : Prop :=
  (s.processes i).initialNcpus - (s.processes i).currentNcpus ≤ s.idleCpus ∨
    ∃ r ∈ queueLewiReqsPopNcpus E.qsort E.debug (surplusQueue s)
      ((s.processes i).initialNcpus - (s.processes i).currentNcpus - s.idleCpus) nodeSize, r.ncpus = 0

/-- Nothing of what a call takes gets lost: it fits in an `unsigned int`, and a reset that has to find CPUs finds
them. -/
def Lossless (E : Env) (nodeSize : ℕ) (s : Shdata) (pid : Pid) (i : ℕ) (w : Withdrawal) : Prop :=
  match w with
  | .disable =>
    if (s.processes i).currentNcpus < (s.processes i).initialNcpus then Found E nodeSize s i
    else takes s pid i w < 2 ^ 32
  | w => takes s pid i w < 2 ^ 32

instance (E : Env) (nodeSize : ℕ) (s : Shdata) (i : ℕ) : Decidable (Found E nodeSize s i) :=
  decidable_of_iff ((s.processes i).initialNcpus - (s.processes i).currentNcpus ≤ s.idleCpus ∨
    (queueLewiReqsPopNcpus E.qsort E.debug (surplusQueue s)
      ((s.processes i).initialNcpus - (s.processes i).currentNcpus - s.idleCpus) nodeSize).any (·.ncpus = 0) = true)
    (or_congr_right (by simp [Option.any_eq_true, Option.mem_def]))

instance (E : Env) (nodeSize : ℕ) (s : Shdata) (pid : Pid) (i : ℕ) : DecidablePred (Lossless E nodeSize s pid i)
  | .disable => inferInstanceAs (Decidable (if (s.processes i).currentNcpus < (s.processes i).initialNcpus then
      Found E nodeSize s i else takes s pid i .disable < 2 ^ 32))
  | .lend | .lendCpus _ | .intoBlockingCall _ => inferInstanceAs (Decidable (_ < 2 ^ 32))

section Run

variable (E : Env) (c : Caller) (nodeSize : ℕ) (pid : Pid)

def slot (s : Shdata) : Option ℕ := if c.shmHandler then getProcess c s pid else none

def Withdrawal.call (s : Shdata) (info : LewiInfo) : Withdrawal → Option (Shdata × Effect)
  | .lend => lewiAsyncLend E c s nodeSize pid info
  | .lendCpus ncpus => lewiAsyncLendCpus E c s nodeSize pid info ncpus
  | .intoBlockingCall keepCpu => lewiAsyncIntoBlockingCall E c s nodeSize pid info keepCpu
  | .disable => lewiAsyncDisable E c s nodeSize pid info

def Ledger.event (x : Ledger) : SavedEvent → Option Ledger
  | .own w => (w.call E c nodeSize pid x.shdata x.info).map fun r =>
      ⟨r.1, r.2.info, x.withdrawn + ((slot c pid x.shdata).elim 0 fun i => LewiAsync.withdrawn x.shdata r.1 pid i)⟩
  | .other c' op => (exec E c' x.shdata op).map fun r => { x with shdata := r.1 }

def Ledger.next (x : Ledger) (e : SavedEvent) : Ledger := (x.event E c nodeSize pid e).getD x

/-- The calls that ask for CPUs ask for those that were withdrawn: on success, a reclaim has passed their number to
the shared memory, and the two calls that acquire CPUs have added it to what they acquire. -/
structure AsksAgain (x : Ledger) : Prop where
  reclaim : ∀ s, Post (fun r => r.2.error = .success →
    ∃ o, LewiAsync.reclaim E c s pid nodeSize x.withdrawn = some (r.1, o))
    (lewiAsyncReclaim E c s nodeSize pid x.info)
  acquireCpus : ∀ s (n : ℤ), 0 < n → Post (fun r => r.2.error = .success ∨ r.2.error = .noted →
    ∃ o, LewiAsync.acquireCpus E c s pid (addU32 n.toNat x.withdrawn) nodeSize = some (r.1, o))
    (lewiAsyncAcquireCpus E c s nodeSize pid x.info n)
  -- the counter is an `unsigned int`
  enable : ∀ s, 0 < x.withdrawn → x.withdrawn < 2 ^ 32 → Post (fun r => r.2.error = .success ∨ r.2.error = .noted →
    ∃ o, LewiAsync.acquireCpus E c s pid (addU32 (subToInt x.info.prevRequested 0).toNat x.withdrawn) nodeSize =
      some (r.1, o)) (lewiAsyncEnable E c s nodeSize pid x.info)

/-- Whatever the event leaves, the saved number is that of the CPUs withdrawn, so they are asked for again. -/
def Remembers (x : Ledger) (e : SavedEvent) : Prop :=
  ∀ x' ∈ x.event E c nodeSize pid e, x'.info.prevRequested = x'.withdrawn ∧ AsksAgain E c nodeSize pid x'

/-- A call that takes something finds no request saved, and loses nothing. -/
def Safe (x : Ledger) : SavedEvent → Prop
  | .own w => (w.call E c nodeSize pid x.shdata x.info).isSome → ∀ i ∈ slot c pid x.shdata,
    0 < takes x.shdata pid i w → x.info.prevRequested = 0 ∧ Lossless E nodeSize x.shdata pid i w
  | .other _ _ => True

instance : ∀ (x : Ledger) (e : SavedEvent), Decidable (Safe E c nodeSize pid x e)
  | x, .own w => inferInstanceAs (Decidable ((w.call E c nodeSize pid x.shdata x.info).isSome →
      ∀ i ∈ slot c pid x.shdata, 0 < takes x.shdata pid i w →
        x.info.prevRequested = 0 ∧ Lossless E nodeSize x.shdata pid i w))
  | _, .other _ _ => inferInstanceAs (Decidable True)

end Run

/-! ## What the operations keep -/

/-- No operation changes the processes of the slots, or queues a process twice. -/
structure Tame (s s' : Shdata) : Prop where
  pid : ∀ j, (s'.processes j).pid = (s.processes j).pid
  nodup : (pids s.requests).Nodup → (pids s'.requests).Nodup

theorem Tame.refl (s : Shdata) : Tame s s := ⟨fun _ => rfl, id⟩

theorem Tame.trans {s1 s2 s3 : Shdata} (h1 : Tame s1 s2) (h2 : Tame s2 s3) : Tame s1 s3 :=
  ⟨fun j => (h2.pid j).trans (h1.pid j), h2.nodup ∘ h1.nodup⟩

theorem pids_remove_nodup {queue : List LewiRequest} (pid : Pid) (h : (pids queue).Nodup) :
    (pids (queueLewiReqsRemove queue pid).2).Nodup := by
  by_cases hp : pid = 0
  · simpa [queueLewiReqsRemove, hp] using h
  · exact (remove_spec h hp).2.1

theorem pids_push {queue : List LewiRequest} {pid : Pid} {n : ℕ} :
    (pids (queueLewiReqsPush queue pid n).2 = pids queue ∨
      (pids (queueLewiReqsPush queue pid n).2 = pids queue ++ [pid] ∧ pid ∉ pids queue) ∨
        (queueLewiReqsPush queue pid n).2 = (queueLewiReqsRemove queue pid).2) := by
  by_cases hp : pid = 0
  · exact Or.inl (by simp [queueLewiReqsPush, hp])
  by_cases hn : n = 0
  · exact Or.inr (Or.inr (by simp [queueLewiReqsPush, hp, hn]))
  by_cases h : pid ∈ pids queue
  · obtain ⟨as, r, bs, rfl, -, he⟩ := push_present hp (Nat.pos_of_ne_zero hn) h
    rw [he]
    exact Or.inl (by simp [pids])
  · unfold queueLewiReqsPush
    rw [if_neg hp, if_neg hn, findIdx_none_iff.mpr h]
    dsimp only
    split
    · exact Or.inl rfl
    · exact Or.inr (Or.inl ⟨by simp [pids], h⟩)

theorem pids_remove_subset {queue : List LewiRequest} {pid q : Pid} (h : q ∈ pids (queueLewiReqsRemove queue pid).2) :
    q ∈ pids queue := by
  by_cases hp : pid = 0
  · simpa [queueLewiReqsRemove, hp] using h
  by_cases hmem : pid ∈ pids queue
  · obtain ⟨r, -, -, hperm⟩ := remove_perm hp hmem
    exact (hperm.map LewiRequest.pid).subset (mem_cons_of_mem _ h)
  · rwa [remove_absent hmem] at h

theorem mem_pids_push {queue : List LewiRequest} {pid q : Pid} {n : ℕ}
    (h : q ∈ pids (queueLewiReqsPush queue pid n).2) : q ∈ pids queue ∨ q = pid := by
  rcases @pids_push queue pid n with heq | ⟨heq, -⟩ | heq
  · exact Or.inl (heq ▸ h)
  · rwa [heq, mem_append, mem_singleton] at h
  · exact Or.inl (pids_remove_subset (heq ▸ h))

theorem pids_push_nodup {queue : List LewiRequest} {pid : Pid} {n : ℕ} (h : (pids queue).Nodup) :
    (pids (queueLewiReqsPush queue pid n).2).Nodup := by
  rcases @pids_push queue pid n with heq | ⟨heq, hnot⟩ | heq
  · rwa [heq]
  · rw [heq, nodup_append]
    refine ⟨h, by simp, fun a ha b hb => ?_⟩
    rw [mem_singleton] at hb
    rintro rfl
    exact hnot (hb ▸ ha)
  · rw [heq]
    exact pids_remove_nodup pid h

section Tame

variable {E : Env} {c : Caller} {s : Shdata} {pid : Pid} {i n maxreqs : ℕ}

theorem Tame.remove (s : Shdata) (pid : Pid) : Tame s { s with requests := (queueLewiReqsRemove s.requests pid).2 } :=
  ⟨fun _ => rfl, pids_remove_nodup pid⟩

theorem Tame.push (s : Shdata) (pid : Pid) (n : ℕ) :
    Tame s { s with requests := (queueLewiReqsPush s.requests pid n).2 } := ⟨fun _ => rfl, pids_push_nodup⟩

theorem Tame.setNcpus (s : Shdata) (i n : ℕ) : Tame s (s.setNcpus i n) := by
  refine ⟨fun j => ?_, id⟩
  by_cases hj : j = i
  · subst hj
    simp [Shdata.setNcpus, Shdata.set]
  · simp [Shdata.setNcpus, Shdata.set, hj]

theorem resolveRequests_tame (rs : List LewiRequest) : Post (fun r => Tame s r.1) (resolveRequests c s rs) := by
  induction rs generalizing s with
  | nil => exact .of_some (Tame.refl s)
  | cons r rs ih =>
    refine (Post.trivial _).bind fun j _ => ih.bind fun _ h => .of_some ?_
    exact (Tame.setNcpus s j _).trans h

theorem lendNcpusToShmem_tame : Post (fun r => Tame s r.1) (lendNcpusToShmem E c s n maxreqs) := by
  unfold lendNcpusToShmem
  split
  · exact .of_some ⟨fun _ => rfl, id⟩
  · refine Post.bind (fun r hpop => pop_pids hpop) fun r hr => ?_
    have hpopped : Tame s { s with requests := r.queue, idleCpus := addU32 s.idleCpus r.ncpus } :=
      ⟨fun _ => rfl, fun hn => (hr.2.2 hn).2⟩
    exact (resolveRequests_tame r.requests).mono fun _ h => hpopped.trans h

theorem lendFrom_tame : Post (fun r => Tame s r.1) (lendFrom E c s i pid n maxreqs) := by
  refine lendNcpusToShmem_tame.bind fun _ h => .of_some ?_
  exact ((Tame.remove s pid).trans (Tame.setNcpus _ i _)).trans h

theorem takeFromVictims_tame (rs : List LewiRequest) : Post (fun r => Tame s r.1) (takeFromVictims c s rs) := by
  induction rs generalizing s with
  | nil => exact .of_some (Tame.refl s)
  | cons r rs ih =>
    refine (Post.trivial _).bind fun j _ => ih.bind fun _ h => .of_some ?_
    exact ((Tame.setNcpus s j _).trans (Tame.push _ _ _)).trans h

theorem reclaimFromShmem_tame : Post (fun r => Tame s r.1) (reclaimFromShmem E c s i n maxreqs) := by
  refine (Post.trivial _).bind fun _ _ => (Post.trivial _).bind fun _ _ => (Post.trivial _).bind fun _ _ =>
    (Post.trivial _).bind fun p _ => ?_
  split
  · refine (takeFromVictims_tame p.requests).bind fun _ h => .of_some ?_
    exact h.trans (Tame.setNcpus _ i _)
  · exact .of_some (Tame.refl s)

theorem borrowFirst_tame (s : Shdata) (i n : ℕ) : Tame s (borrowFirst s i n).1 := by
  unfold borrowFirst
  dsimp only
  split
  · have hidle : Tame s { s with idleCpus := s.idleCpus - min s.idleCpus n } := ⟨fun _ => rfl, id⟩
    refine hidle.trans ?_
    exact Tame.setNcpus _ i _
  · exact Tame.refl s

theorem reclaimLater_tame {e : DlbError} : Post (fun r => Tame s r.1) (reclaimLater E c s i n maxreqs e) := by
  unfold reclaimLater
  split
  · exact reclaimFromShmem_tame
  · exact .of_some (Tame.refl s)

theorem borrowAndReclaim_tame : Post (fun r => Tame s r.1) (borrowAndReclaim E c s i n maxreqs) :=
  reclaimLater_tame.mono fun _ h => (borrowFirst_tame s i n).trans h

theorem attendPrevRequested_tame (s : Shdata) (i : ℕ) (pid : Pid) (k : ℕ) : Tame s (attendPrevRequested s i pid k) := by
  unfold attendPrevRequested
  dsimp only
  split
  · exact (borrowFirst_tame s i k).trans (Tame.push _ _ _)
  · exact borrowFirst_tame s i k

theorem resetProcess_tame : Post (fun r => Tame s r.1) (resetProcess E c s i maxreqs) := by
  have hremove := Tame.remove s (s.processes i).pid
  unfold resetProcess
  dsimp only
  split
  · refine lendNcpusToShmem_tame.bind fun _ h => .of_some ?_
    exact (hremove.trans (Tame.setNcpus _ i _)).trans h
  · split
    · exact borrowAndReclaim_tame.bind fun _ h => .of_some (hremove.trans h)
    · exact .of_some hremove

/-- What a process can rely on: nobody is queued twice, and its slot is its own. -/
structure Tidy (pid : Pid) (s : Shdata) : Prop where
  nodup : (pids s.requests).Nodup
  unique : ∀ i j, (s.processes i).pid = pid → (s.processes j).pid = pid → i = j

theorem Tame.tidy {s' : Shdata} (h : Tame s s') (ht : Tidy pid s) : Tidy pid s' :=
  ⟨h.nodup ht.nodup, fun i j hi hj => ht.unique i j (h.pid i ▸ hi) (h.pid j ▸ hj)⟩

def RegistersOnce (pid : Pid) (_ : Caller) (s : Shdata) : Op → Prop
  | .init p _ => p = pid → ∀ i, (s.processes i).pid ≠ pid
  | _ => True

theorem init_tidy (ht : Tidy pid s) {p : Pid} (hp : p = pid → ∀ i, (s.processes i).pid ≠ pid) :
    Tidy pid (init c s p n).1 := by
  unfold init
  dsimp only
  generalize hs1 : (if s.attachedNprocs + 1 = 1 then
    { s with attachedNprocs := 1, maxProcesses := c.maxProcesses, idleCpus := 0, requests := [] }
    else { s with attachedNprocs := s.attachedNprocs + 1 } : Shdata) = s1
  have ht1 : Tidy pid s1 ∧ s1.processes = s.processes := by
    rw [← hs1]
    split
    · exact ⟨⟨nodup_nil, ht.unique⟩, rfl⟩
    · exact ⟨⟨ht.nodup, ht.unique⟩, rfl⟩
  obtain ⟨ht1, hproc⟩ := ht1
  split
  · split
    · rename_i slot hslot
      have hget : ∀ j, j ≠ slot → (update s1.processes slot ⟨p, n, n⟩ j).pid = (s.processes j).pid := by
        intro j hj
        rw [update_of_ne hj, hproc]
      refine ⟨ht1.nodup, fun i j hi hj => ?_⟩
      by_cases hps : p = pid
      · have hall : ∀ j, (update s1.processes slot ⟨p, n, n⟩ j).pid = pid → j = slot := by
          intro j hj
          by_contra hne
          exact hp hps j (hget j hne ▸ hj)
        rw [hall i hi, hall j hj]
      · have hne : ∀ j, (update s1.processes slot ⟨p, n, n⟩ j).pid = pid → j ≠ slot := by
          rintro j hj rfl
          rw [update_self] at hj
          exact hps hj
        exact ht.unique i j (hget i (hne i hi) ▸ hi) (hget j (hne j hj) ▸ hj)
    · exact ⟨ht1.nodup, ht1.unique⟩
  · exact ⟨ht1.nodup, ht1.unique⟩

theorem lendCpus_tame : Post (fun r => Tame s r.1) (lendCpus E c s pid n maxreqs) :=
  lendCpus_post (Tame.refl s) fun _ => lendFrom_tame

theorem lendKeepCpus_tame : Post (fun r => Tame s r.1) (lendKeepCpus E c s pid n maxreqs) :=
  lendKeepCpus_post (Tame.refl s) fun _ _ => lendFrom_tame

theorem reclaim_tame {k : ℕ} : Post (fun r => Tame s r.1) (reclaim E c s pid maxreqs k) := by
  unfold reclaim
  split
  · exact .of_some (Tame.refl s)
  split
  · exact .of_some (Tame.refl s)
  split
  · refine borrowAndReclaim_tame.bind fun r h => .of_some ?_
    split
    · exact h.trans (attendPrevRequested_tame _ _ _ _)
    · exact h
  · exact .of_some (Tame.refl s)

theorem acquireCpus_tame : Post (fun r => Tame s r.1) (acquireCpus E c s pid n maxreqs) := by
  unfold acquireCpus
  split
  · exact .of_some (Tame.refl s)
  split
  · exact .of_some (Tame.refl s)
  split
  · exact .of_some (Tame.refl s)
  rename_i i _
  refine reclaimLater_tame.bind fun r h => .of_some ?_
  have h' := (borrowFirst_tame s i n).trans h
  have hrest : ∀ k, Tame s
      (if 0 < k then { r.1 with requests := (queueLewiReqsPush r.1.requests pid k).2 } else r.1) := by
    intro k
    split
    · exact h'.trans (Tame.push _ _ _)
    · exact h'
  exact hrest _

theorem borrowCpus_tame (c : Caller) (s : Shdata) (pid : Pid) (n : ℕ) : Tame s (borrowCpus c s pid n).1 := by
  unfold borrowCpus
  split
  · exact Tame.refl s
  split
  · exact Tame.refl s
  · exact borrowFirst_tame s _ n

theorem reset_tame : Post (fun r => Tame s r.1) (reset E c s pid maxreqs) := by
  unfold reset
  split
  · exact .of_some (Tame.refl s)
  split
  · exact .of_some (Tame.refl s)
  split
  · exact resetProcess_tame.bind fun _ h => .of_some h
  · exact .of_some (Tame.refl s)

theorem removeRequests_tame (c : Caller) (s : Shdata) (pid : Pid) : Tame s (removeRequests c s pid) := by
  unfold removeRequests
  split
  · exact Tame.refl s
  · exact Tame.remove s pid

theorem finalize_tidy {p : Pid} (hp : pid ≠ 0) (ht : Tidy pid s) :
    Post (fun r => Tidy pid r.1) (finalize E c s p maxreqs) := by
  unfold finalize
  split
  · exact .of_some ht
  split
  · exact .of_some ht
  rename_i slot _
  refine resetProcess_tame.bind fun r h => .of_some ?_
  have ht' := h.tidy ht
  have hne : ∀ j, ((r.1.set slot {}).processes j).pid = pid → (r.1.processes j).pid = pid := by
    intro j hj
    by_cases hs : j = slot
    · subst hs
      simp only [Shdata.set, update_self] at hj
      exact absurd hj.symm hp
    · simpa only [Shdata.set, update_of_ne hs] using hj
  exact ⟨ht'.nodup, fun i j hi hj => ht'.unique i j (hne i hi) (hne j hj)⟩

theorem exec_tidy {op : Op} (hp : pid ≠ 0) (ht : Tidy pid s) (hop : RegistersOnce pid c s op) :
    Post (fun r => Tidy pid r.1) (exec E c s op) := by
  cases op with
  | init p n => exact .of_some (init_tidy ht hop)
  | lendCpus p n maxreqs => exact lendCpus_tame.mono fun _ h => h.tidy ht
  | lendKeepCpus p n maxreqs => exact lendKeepCpus_tame.mono fun _ h => h.tidy ht
  | reclaim p maxreqs k => exact reclaim_tame.mono fun _ h => h.tidy ht
  | acquireCpus p n maxreqs => exact acquireCpus_tame.mono fun _ h => h.tidy ht
  | borrowCpus p n => exact .of_some ((borrowCpus_tame c s p n).tidy ht)
  | reset p maxreqs => exact reset_tame.mono fun _ h => h.tidy ht
  | removeRequests p => exact .of_some ((removeRequests_tame c s p).tidy ht)
  | finalize p maxreqs => exact finalize_tidy hp ht

theorem reachable_tidy (hp : pid ≠ 0) (h : Reachable E (RegistersOnce pid) s) : Tidy pid s := by
  have hempty : Tidy pid {} := ⟨nodup_nil, fun i j hi _ => absurd hi.symm hp⟩
  refine Lib.Run.invariant h hempty fun a b ha hstep => ?_
  cases hstep with
  | call c op hadm he => exact exec_tidy hp ha hadm _ he
  | unlink _ => exact hempty

end Tame

/-! ## What the calls withdraw, and what they return -/

section Takes

variable {E : Env} {c : Caller} {s : Shdata} {pid : Pid} {i n maxreqs : ℕ}

theorem resolveRequests_apart {rs : List LewiRequest} (hi : (s.processes i).pid ∉ pids rs) :
    Post (fun r => r.1.processes i = s.processes i ∧ r.1.requests = s.requests) (resolveRequests c s rs) := by
  induction rs generalizing s with
  | nil => exact .of_some ⟨rfl, rfl⟩
  | cons r rs ih =>
    rw [pids_cons, mem_cons, not_or] at hi
    refine Post.bind (P := fun j => j ≠ i) (fun j hj => ?_) fun j hj => ?_
    · rintro rfl
      exact hi.1 (getProcess_pid hj)
    · have hsame : (s.addNcpus j r.howmany).processes i = s.processes i := by
        simp [Shdata.addNcpus, Shdata.set, Ne.symm hj]
      exact (ih (hsame ▸ hi.2)).bind fun _ h => .of_some ⟨h.1.trans hsame, h.2⟩

theorem lendNcpusToShmem_apart (hi : (s.processes i).pid ∉ pids s.requests) :
    Post (fun r => r.1.processes i = s.processes i ∧ (s.processes i).pid ∉ pids r.1.requests)
      (lendNcpusToShmem E c s n maxreqs) := by
  unfold lendNcpusToShmem
  split
  · exact .of_some ⟨rfl, hi⟩
  · refine Post.bind (fun r hpop => pop_pids hpop) fun r hr => ?_
    have hresolved := resolveRequests_apart (c := c)
      (s := { s with requests := r.queue, idleCpus := addU32 s.idleCpus r.ncpus }) fun h => hi (hr.1 _ h)
    refine hresolved.mono fun _ h => ⟨h.1, ?_⟩
    rw [h.2]
    exact fun hmem => hi (hr.2.1 _ hmem)

theorem notMem_pids_remove (ht : Tidy pid s) (hp : pid ≠ 0) : pid ∉ pids (queueLewiReqsRemove s.requests pid).2 := by
  intro h
  obtain ⟨r, hr, heq⟩ := mem_map.mp h
  exact (((remove_spec ht.nodup hp).2.2 r).mp hr).2 heq

theorem beyond_subNcpus (s : Shdata) (i n : ℕ) : beyond (s.subNcpus i n) i = beyond s i - n := by
  simp only [beyond, Shdata.subNcpus, Shdata.set, update_self]
  omega

theorem lendNcpusToShmem_takes (ht : Tidy pid s) (hp : pid ≠ 0) (hi : (s.processes i).pid = pid) :
    Post (fun r => withdrawn s r.1 pid i = min (beyond s i) n + amount s.requests pid) (lendNcpusToShmem E c
      ({ s with requests := (queueLewiReqsRemove s.requests pid).2 }.subNcpus i n) n maxreqs) := by
  have hgone := notMem_pids_remove ht hp
  generalize hs1 : ({ s with requests := (queueLewiReqsRemove s.requests pid).2 } : Shdata).subNcpus i n = s1
  have hpid1 : (s1.processes i).pid = pid := by
    rw [← hs1]
    simp [Shdata.subNcpus, Shdata.set, hi]
  have hbeyond₁ : beyond s1 i = beyond s i - n := hs1 ▸ beyond_subNcpus _ i n
  have hreq1 : pid ∉ pids s1.requests := hs1 ▸ hgone
  refine (lendNcpusToShmem_apart (hpid1 ▸ hreq1)).mono fun r h => ?_
  have hbeyond : beyond r.1 i = beyond s1 i := by
    unfold beyond
    rw [h.1]
  have hamount : amount r.1.requests pid = 0 := amount_eq_zero (hpid1 ▸ h.2)
  unfold withdrawn
  omega

theorem ncpusLentNotOwned_eq (s : Shdata) (i n : ℕ) : ncpusLentNotOwned (s.processes i) n = min (beyond s i) n := by
  unfold ncpusLentNotOwned beyond
  split
  · rfl
  · rename_i h
    rw [Nat.sub_eq_zero_of_le (by omega), Nat.zero_min]

theorem lendFrom_takes (ht : Tidy pid s) (hp : pid ≠ 0) (hi : (s.processes i).pid = pid) :
    Post (fun r => r.2.2 = (min (beyond s i) n + amount s.requests pid) % 2 ^ 32 ∧
      withdrawn s r.1 pid i = min (beyond s i) n + amount s.requests pid) (lendFrom E c s i pid n maxreqs) := by
  refine (lendNcpusToShmem_takes ht hp hi).bind fun r h => .of_some ⟨?_, h⟩
  change addU32 (ncpusLentNotOwned (s.processes i) n) (queueLewiReqsRemove s.requests pid).1 = _
  rw [ncpusLentNotOwned_eq, (remove_spec ht.nodup hp).1]
  rfl

theorem withdrawn_self (s : Shdata) (pid : Pid) (i : ℕ) : withdrawn s s pid i = 0 := by
  unfold withdrawn
  omega

/-- What an operation withdraws it returns in `*prev_requested`, if it succeeds. -/
def Withdraws (s : Shdata) (pid : Pid) (i t : ℕ) (r : Shdata × Output) : Prop :=
  withdrawn s r.1 pid i = t ∧ (r.2.error = .success → r.2.prevRequested = some (t % 2 ^ 32)) ∧
    (r.2.error ≠ .success → t = 0)

theorem Withdraws.refused {o : Output} (he : o.error ≠ .success) : Withdraws s pid i 0 (s, o) :=
  ⟨withdrawn_self s pid i, fun h => absurd h he, fun _ => rfl⟩

theorem lendCpus_withdraws (ht : Tidy pid s) (hp : pid ≠ 0) (hc : c.shmHandler = true)
    (hget : getProcess c s pid = some i) (hn : 0 < n) : Post (Withdraws s pid i
      (if (s.processes i).currentNcpus < n then 0 else min (beyond s i) n + amount s.requests pid))
      (lendCpus E c s pid n maxreqs) := by
  unfold lendCpus
  simp only [hc, hget, Bool.not_true, Bool.false_eq_true, if_false, if_neg (Nat.pos_iff_ne_zero.mp hn)]
  split
  · exact .of_some (Withdraws.refused (by decide))
  · refine (lendFrom_takes ht hp (getProcess_pid hget)).bind fun r h => .of_some ⟨h.2, fun _ => ?_, fun hne => ?_⟩
    · exact congrArg some h.1
    · exact absurd rfl hne

theorem lendKeepCpus_withdraws (ht : Tidy pid s) (hp : pid ≠ 0) (hc : c.shmHandler = true)
    (hget : getProcess c s pid = some i) : Post (Withdraws s pid i
      (if (s.processes i).currentNcpus - n = 0 then 0
        else min (beyond s i) ((s.processes i).currentNcpus - n) + amount s.requests pid))
      (lendKeepCpus E c s pid n maxreqs) := by
  unfold lendKeepCpus
  simp only [hc, hget, Bool.not_true, Bool.false_eq_true, if_false]
  by_cases h : (s.processes i).currentNcpus - n = 0
  · rw [if_pos h]
    split
    · exact .of_some (Withdraws.refused (by decide))
    split
    · exact .of_some (Withdraws.refused (by decide))
    · omega
  · rw [if_neg h, if_neg (by omega), if_neg (by omega)]
    refine (lendFrom_takes ht hp (getProcess_pid hget)).bind fun r h => .of_some ⟨h.2, fun _ => ?_, fun hne => ?_⟩
    · exact congrArg some h.1
    · exact absurd rfl hne

/-! A reset that gives CPUs to the process takes them from others. -/

theorem notMem_pids_surplusQueue (hi : ∀ j, (s.processes j).pid = pid → beyond s j = 0) :
    pid ∉ pids (surplusQueue s) := by
  have hfold : ∀ (js : List ℕ) (surplus : List LewiRequest), pid ∉ pids surplus →
      pid ∉ pids (js.foldl (fun surplus p =>
        let target := s.processes p
        if target.pid ≠ 0 ∧ target.initialNcpus < target.currentNcpus then
          (queueLewiReqsPush surplus target.pid (target.currentNcpus - target.initialNcpus)).2
        else surplus) surplus) := by
    intro js
    induction js with
    | nil => exact fun _ h => h
    | cons j js ih =>
      intro surplus h
      refine ih _ ?_
      dsimp only
      split
      · rename_i hj
        have hne : (s.processes j).pid ≠ pid := fun heq => by
          have := hi j heq
          unfold beyond at this
          omega
        exact fun hmem => (mem_pids_push hmem).elim h (Ne.symm hne)
      · exact h
  exact hfold _ [] (by simp [pids])

theorem takeFromVictims_apart {rs : List LewiRequest} (hi : (s.processes i).pid ∉ pids rs)
    (hq : (s.processes i).pid ∉ pids s.requests) :
    Post (fun r => r.1.processes i = s.processes i ∧ (s.processes i).pid ∉ pids r.1.requests)
      (takeFromVictims c s rs) := by
  induction rs generalizing s with
  | nil => exact .of_some ⟨rfl, hq⟩
  | cons r rs ih =>
    rw [pids_cons, mem_cons, not_or] at hi
    refine Post.bind (P := fun j => j ≠ i) (fun j hj => ?_) fun j hj => ?_
    · rintro rfl
      exact hi.1 (getProcess_pid hj)
    · have hsame : (s.subNcpus j r.howmany).processes i = s.processes i := by
        simp [Shdata.subNcpus, Shdata.set, Ne.symm hj]
      have hpush : (s.processes i).pid ∉ pids (queueLewiReqsPush s.requests r.pid r.howmany).2 :=
        fun hmem => (mem_pids_push hmem).elim hq hi.1
      exact (ih (hsame ▸ hi.2) (hsame ▸ hpush)).bind fun _ h => .of_some ⟨h.1.trans hsame, hsame ▸ h.2⟩

theorem borrowFirst_frame (s : Shdata) (i n : ℕ) : Frame s (borrowFirst s i n).1 ∧
    (borrowFirst s i n).1.requests = s.requests ∧ (borrowFirst s i n).2 = min s.idleCpus n ∧
    ((borrowFirst s i n).1.processes i).currentNcpus ≤ (s.processes i).currentNcpus + (borrowFirst s i n).2 ∧
    ∀ j, j ≠ i → (borrowFirst s i n).1.processes j = s.processes j := by
  unfold borrowFirst
  dsimp only
  split
  · have hf := setNcpus_frame { s with idleCpus := s.idleCpus - min s.idleCpus n } i
      (addU32 (s.processes i).currentNcpus (min s.idleCpus n))
    refine ⟨⟨hf.head, hf.pid, hf.initialNcpus⟩, rfl, rfl, ?_, fun j hj => ?_⟩
    · simp only [Shdata.addNcpus, Shdata.set, update_self, addU32]
      exact Nat.mod_le _ _
    · simp [Shdata.addNcpus, Shdata.set, hj]
  · exact ⟨Frame.refl s, rfl, by omega, Nat.le_refl _, fun _ _ => rfl⟩

theorem borrowAndReclaim_reset (hi : (s.processes i).pid = pid)
    (hunique : ∀ j, (s.processes j).pid = pid → j = i) (hgone : pid ∉ pids s.requests)
    (hlt : (s.processes i).currentNcpus < (s.processes i).initialNcpus) :
    Post (fun r => pid ∉ pids r.1.requests ∧ beyond r.1 i = 0 ∧ (r.2.1 = .success ↔ Found E maxreqs s i))
      (borrowAndReclaim E c s i ((s.processes i).initialNcpus - (s.processes i).currentNcpus) maxreqs) := by
  obtain ⟨hf, hreq, hgot, hcur, hother⟩ := borrowFirst_frame s i
    ((s.processes i).initialNcpus - (s.processes i).currentNcpus)
  unfold borrowAndReclaim reclaimLater
  dsimp only
  generalize borrowFirst s i ((s.processes i).initialNcpus - (s.processes i).currentNcpus) = b at hf hreq hgot hcur hother ⊢
  have hinit := hf.initialNcpus i
  have hpid := hf.pid i
  have hbeyond : ∀ j, (b.1.processes j).pid = pid → beyond b.1 j = 0 := by
    intro j hj
    rw [hunique j (hf.pid j ▸ hj)]
    unfold beyond
    omega
  have hsurplus : surplusQueue b.1 = surplusQueue s := by
    refine surplusQueue_congr hf fun j => ?_
    by_cases hj : j = i
    · subst hj
      omega
    · rw [hother j hj]
  split
  · rename_i hmore
    refine (Post.trivial _).bind fun _ _ => (Post.trivial _).bind fun _ _ => (Post.trivial _).bind fun _ _ => ?_
    refine Post.bind (P := fun r => queueLewiReqsPopNcpus E.qsort E.debug (surplusQueue b.1)
      ((s.processes i).initialNcpus - (s.processes i).currentNcpus - b.2) maxreqs = some r) (fun _ h => h)
      fun r hpop => ?_
    have hfound : r.ncpus = 0 ↔ Found E maxreqs s i := by
      have hidle : (s.processes i).initialNcpus - (s.processes i).currentNcpus - b.2 =
          (s.processes i).initialNcpus - (s.processes i).currentNcpus - s.idleCpus := by omega
      unfold Found
      rw [← hidle, ← hsurplus]
      constructor
      · exact fun h0 => Or.inr ⟨r, hpop, h0⟩
      · rintro (hle | ⟨r', hr', h0⟩)
        · omega
        · rw [hpop, Option.mem_some_iff] at hr'
          rw [hr']
          exact h0
    split
    · rename_i hzero
      have hnot : (b.1.processes i).pid ∉ pids r.requests := by
        rw [hpid, hi]
        exact fun hmem => notMem_pids_surplusQueue hbeyond ((pop_pids hpop).1 _ hmem)
      refine (takeFromVictims_apart hnot (by rw [hpid, hi, hreq]; exact hgone)).bind fun v hv => .of_some ?_
      refine ⟨?_, ?_, fun _ => hfound.mp hzero, fun _ => rfl⟩
      · exact fun hmem => hv.2 (by rw [hpid, hi]; exact hmem)
      · simp only [beyond, Shdata.addNcpus, Shdata.set, update_self, hv.1, addU32]
        have := Nat.mod_le ((b.1.processes i).currentNcpus +
          ((s.processes i).initialNcpus - (s.processes i).currentNcpus - b.2)) (2 ^ 32)
        omega
    · rename_i hzero
      refine .of_some ⟨hreq ▸ hgone, hbeyond i (hpid.trans hi), fun h => ?_, fun h => ?_⟩
      · cases h
      · exact absurd (hfound.mpr h) hzero
  · refine .of_some ⟨hreq ▸ hgone, hbeyond i (hpid.trans hi), fun _ => Or.inl (by omega), fun _ => ?_⟩
    rw [if_pos (by omega)]

theorem withdrawn_reset {s' : Shdata} (hgone : pid ∉ pids s'.requests) (hbeyond : beyond s' i = 0) :
    withdrawn s s' pid i = beyond s i + amount s.requests pid := by
  have hamount : amount s'.requests pid = 0 := amount_eq_zero hgone
  unfold withdrawn
  omega

theorem resetProcess_takes (ht : Tidy pid s) (hp : pid ≠ 0) (hi : (s.processes i).pid = pid)
    (hne : (s.processes i).initialNcpus ≠ (s.processes i).currentNcpus) :
    Post (fun r => withdrawn s r.1 pid i = beyond s i + amount s.requests pid ∧
      (r.2.1 = .success ↔ ((s.processes i).currentNcpus < (s.processes i).initialNcpus → Found E maxreqs s i)) ∧
      r.2.2.2 = if (s.processes i).currentNcpus < (s.processes i).initialNcpus then beyond s i + amount s.requests pid
        else (beyond s i + amount s.requests pid) % 2 ^ 32) (resetProcess E c s i maxreqs) := by
  have hremoved := (remove_spec ht.nodup hp).1
  have hgone := notMem_pids_remove ht hp
  unfold resetProcess
  dsimp only
  rw [hi]
  rcases Nat.lt_or_gt_of_ne hne with hlt | hlt
  · simp only [if_pos hlt, if_neg (Nat.lt_asymm hlt)]
    refine (lendNcpusToShmem_takes ht hp hi).bind fun r h => .of_some ⟨?_, ?_, ?_⟩
    · rw [h]
      unfold beyond
      omega
    · exact ⟨fun _ hcur => absurd hcur (Nat.lt_asymm hlt), fun _ => rfl⟩
    · rw [hremoved, addU32, Nat.add_comm]
      rfl
  · have hnone : beyond s i = 0 := Nat.sub_eq_zero_of_le hlt.le
    simp only [if_pos hlt, if_neg (Nat.lt_asymm hlt)]
    have hunique : ∀ j, (s.processes j).pid = pid → j = i := fun j hj => ht.unique j i hj hi
    refine (borrowAndReclaim_reset (s := { s with requests := (queueLewiReqsRemove s.requests pid).2 })
      hi hunique hgone hlt).bind fun r h => .of_some ⟨withdrawn_reset h.1 h.2.1, ?_, ?_⟩
    · exact ⟨fun he _ => h.2.2.mp he, fun hf => h.2.2.mpr (hf hlt)⟩
    · rw [hnone, Nat.zero_add]
      exact hremoved

theorem reset_takes (ht : Tidy pid s) (hp : pid ≠ 0) (hc : c.shmHandler = true) (hget : getProcess c s pid = some i) :
    Post (fun r => withdrawn s r.1 pid i = takes s pid i .disable ∧
      (r.2.error = .success ↔ (s.processes i).initialNcpus ≠ (s.processes i).currentNcpus ∧
        ((s.processes i).currentNcpus < (s.processes i).initialNcpus → Found E maxreqs s i)) ∧
      (r.2.error = .success → r.2.prevRequested.getD 0 =
        if (s.processes i).currentNcpus < (s.processes i).initialNcpus then takes s pid i .disable
        else takes s pid i .disable % 2 ^ 32)) (reset E c s pid maxreqs) := by
  unfold reset
  simp only [hc, hget, Bool.not_true, Bool.false_eq_true, if_false]
  by_cases heq : (s.processes i).initialNcpus = (s.processes i).currentNcpus
  · have htakes : takes s pid i .disable = 0 := if_pos heq
    rw [if_neg (not_not.mpr heq), htakes]
    refine .of_some ⟨withdrawn_self s pid i, ⟨fun h => ?_, fun h => absurd heq h.1⟩, fun h => ?_⟩
    · cases h
    · cases h
  · have htakes : takes s pid i .disable = beyond s i + amount s.requests pid := if_neg heq
    rw [if_pos heq, htakes]
    refine (resetProcess_takes ht hp (getProcess_pid hget) heq).bind fun r h => .of_some ⟨h.1, ?_, fun _ => h.2.2⟩
    exact h.2.1.trans ⟨fun hf => ⟨heq, hf⟩, And.right⟩

/-! ## When the saved number is right -/

theorem savePrevRequested_iff (info : LewiInfo) (t : ℕ) :
    (savePrevRequested info (t % 2 ^ 32)).prevRequested = info.prevRequested + t ↔
      (0 < t → info.prevRequested = 0 ∧ t < 2 ^ 32) := by
  unfold savePrevRequested
  split
  · dsimp only
    omega
  · omega

theorem savePrevRequested_iff_of_lt (info : LewiInfo) (t : ℕ) :
    (savePrevRequested info t).prevRequested = info.prevRequested + t ↔ (0 < t → info.prevRequested = 0) := by
  unfold savePrevRequested
  split
  · dsimp only
    omega
  · omega

/-- One call: what it withdraws, and when it saves that. -/
structure Saves (E : Env) (nodeSize : ℕ) (s : Shdata) (info : LewiInfo) (pid : Pid) (i : ℕ) (w : Withdrawal)
    (r : Shdata × Effect) : Prop where
  withdrawn : LewiAsync.withdrawn s r.1 pid i = takes s pid i w
  saved : r.2.info.prevRequested = info.prevRequested + takes s pid i w ↔
    (0 < takes s pid i w → info.prevRequested = 0 ∧ Lossless E nodeSize s pid i w)

variable {nodeSize : ℕ} {info : LewiInfo}

theorem lewiAsyncLendKeepCpus_saves (ht : Tidy pid s) (hp : pid ≠ 0) (hc : c.shmHandler = true)
    (hget : getProcess c s pid = some i) {w : Withdrawal} (hw : w ≠ .disable)
    (hn : w.lends (s.processes i).currentNcpus = (s.processes i).currentNcpus - n) :
    Post (Saves E nodeSize s info pid i w) (lewiAsyncLendKeepCpus E c s nodeSize pid info n) := by
  have htakes : takes s pid i w = if (s.processes i).currentNcpus - n = 0 then 0
      else min (beyond s i) ((s.processes i).currentNcpus - n) + amount s.requests pid := by
    rw [← hn]
    cases w <;> first | rfl | exact absurd rfl hw
  have hlossless : Lossless E nodeSize s pid i w ↔ takes s pid i w < 2 ^ 32 := by
    cases w <;> first | exact Iff.rfl | exact absurd rfl hw
  refine (lendKeepCpus_withdraws ht hp hc hget).bind fun r h => .of_some ⟨h.1.trans htakes.symm, ?_⟩
  rw [← htakes] at h
  rw [hlossless]
  split
  · rename_i hok
    rw [← savePrevRequested_iff, h.2.1 hok]
    exact Iff.rfl
  · rename_i hno
    rw [h.2.2 hno]
    exact ⟨fun _ h0 => absurd h0 (Nat.lt_irrefl 0), fun _ => rfl⟩

theorem lewiAsyncLendCpus_saves (ht : Tidy pid s) (hp : pid ≠ 0) (hc : c.shmHandler = true)
    (hget : getProcess c s pid = some i) (n : ℤ) :
    Post (Saves E nodeSize s info pid i (.lendCpus n)) (lewiAsyncLendCpus E c s nodeSize pid info n) := by
  have htakes : takes s pid i (.lendCpus n) =
      if (if n.toNat ≤ (s.processes i).currentNcpus then n.toNat else 0) = 0 then 0
      else min (beyond s i) (if n.toNat ≤ (s.processes i).currentNcpus then n.toNat else 0) +
        amount s.requests pid := rfl
  have hrefused : n.toNat = 0 → ∀ e, Saves E nodeSize s info pid i (.lendCpus n) (s, { error := e, info := info }) := by
    intro h0 e
    have hzero : takes s pid i (.lendCpus n) = 0 := by
      rw [htakes, h0]
      simp
    refine ⟨(withdrawn_self s pid i).trans hzero.symm, ?_⟩
    rw [hzero]
    exact ⟨fun _ h => absurd h (Nat.lt_irrefl 0), fun _ => rfl⟩
  unfold lewiAsyncLendCpus
  split
  · exact .of_some (hrefused (by omega) _)
  split
  · exact .of_some (hrefused (by omega) _)
  · have hn : 0 < n.toNat := by omega
    have heq : takes s pid i (.lendCpus n) = if (s.processes i).currentNcpus < n.toNat then 0
        else min (beyond s i) n.toNat + amount s.requests pid := by
      rw [htakes]
      by_cases hle : n.toNat ≤ (s.processes i).currentNcpus
      · rw [if_pos hle, if_neg hn.ne', if_neg (Nat.not_lt.mpr hle)]
      · rw [if_neg hle, if_pos rfl, if_pos (Nat.lt_of_not_le hle)]
    refine (lendCpus_withdraws ht hp hc hget hn).bind fun r h => .of_some ⟨h.1.trans heq.symm, ?_⟩
    rw [← heq] at h
    change _ ↔ (0 < takes s pid i (.lendCpus n) → info.prevRequested = 0 ∧ takes s pid i (.lendCpus n) < 2 ^ 32)
    split
    · rename_i hok
      rw [← savePrevRequested_iff, h.2.1 hok]
      exact Iff.rfl
    · rename_i hno
      rw [h.2.2 hno]
      exact ⟨fun _ h0 => absurd h0 (Nat.lt_irrefl 0), fun _ => rfl⟩

theorem lewiAsyncDisable_saves (ht : Tidy pid s) (hp : pid ≠ 0) (hc : c.shmHandler = true)
    (hget : getProcess c s pid = some i) :
    Post (Saves E nodeSize s info pid i .disable) (lewiAsyncDisable E c s nodeSize pid info) := by
  refine (reset_takes ht hp hc hget).bind fun r ⟨hwithdrawn, hok, hprev⟩ => .of_some ⟨hwithdrawn, ?_⟩
  have hequal : (s.processes i).initialNcpus = (s.processes i).currentNcpus → takes s pid i .disable = 0 :=
    fun heq => if_pos heq
  unfold Lossless
  by_cases hs : r.2.error = .success
  · rw [if_pos hs]
    have hfound := (hok.mp hs).2
    change (savePrevRequested info (r.2.prevRequested.getD 0)).prevRequested = _ ↔ _
    rw [hprev hs]
    split
    · rename_i hlt
      rw [savePrevRequested_iff_of_lt]
      exact ⟨fun h h0 => ⟨h h0, hfound hlt⟩, fun h h0 => (h h0).1⟩
    · exact savePrevRequested_iff _ _
  · rw [if_neg hs]
    dsimp only
    constructor
    · intro h h0
      omega
    · intro h
      by_contra hne
      have hpos : 0 < takes s pid i .disable := by omega
      have hdiffer : (s.processes i).initialNcpus ≠ (s.processes i).currentNcpus := fun heq => by
        rw [hequal heq] at hpos
        exact absurd hpos (Nat.lt_irrefl 0)
      refine hs (hok.mpr ⟨hdiffer, fun hlt => ?_⟩)
      have := (h hpos).2
      rwa [if_pos hlt] at this

theorem call_saves (ht : Tidy pid s) (hp : pid ≠ 0) (hc : c.shmHandler = true) (hget : getProcess c s pid = some i)
    (w : Withdrawal) : Post (Saves E nodeSize s info pid i w) (w.call E c nodeSize pid s info) := by
  cases w with
  | lend => exact lewiAsyncLendKeepCpus_saves ht hp hc hget (by simp) rfl
  | lendCpus n => exact lewiAsyncLendCpus_saves ht hp hc hget n
  | intoBlockingCall keepCpu =>
    exact (lewiAsyncLendKeepCpus_saves ht hp hc hget (by simp) rfl).bind fun r h => .of_some ⟨h.withdrawn, h.saved⟩
  | disable => exact lewiAsyncDisable_saves ht hp hc hget

theorem ops_refused (E : Env) (maxreqs : ℕ) (hslot : slot c pid s = none) : ∃ e : DlbError, e ≠ .success ∧
    (∀ n, lendCpus E c s pid n maxreqs = some (s, { error := e })) ∧
    (∀ n, lendKeepCpus E c s pid n maxreqs = some (s, { error := e })) ∧
    reset E c s pid maxreqs = some (s, { error := e }) := by
  unfold slot at hslot
  cases hc : c.shmHandler with
  | false =>
    exact ⟨.errNoshmem, by decide, fun n => by simp [lendCpus, hc], fun n => by simp [lendKeepCpus, hc],
      by simp [reset, hc]⟩
  | true =>
    rw [if_pos hc] at hslot
    exact ⟨.errNoproc, by decide, fun n => by simp [lendCpus, hc, hslot], fun n => by simp [lendKeepCpus, hc, hslot],
      by simp [reset, hc, hslot]⟩

theorem call_refused (hslot : slot c pid s = none) (w : Withdrawal) :
    Post (fun r => r.1 = s ∧ r.2.info = info) (w.call E c nodeSize pid s info) := by
  obtain ⟨e, he, hlend, hkeep, hreset⟩ := ops_refused E nodeSize hslot
  have hkeeps : ∀ n, Post (fun r => r.1 = s ∧ r.2.info = info) (lewiAsyncLendKeepCpus E c s nodeSize pid info n) := by
    intro n
    unfold lewiAsyncLendKeepCpus
    rw [hkeep n]
    exact .of_some ⟨rfl, by rw [if_neg he]⟩
  cases w with
  | lend => exact hkeeps 1
  | intoBlockingCall keepCpu => exact (hkeeps _).bind fun r h => .of_some h
  | lendCpus n =>
    unfold Withdrawal.call lewiAsyncLendCpus
    dsimp only
    split
    · exact .of_some ⟨rfl, rfl⟩
    split
    · exact .of_some ⟨rfl, rfl⟩
    rw [hlend]
    exact .of_some ⟨rfl, by rw [if_neg he]⟩
  | disable =>
    unfold Withdrawal.call lewiAsyncDisable
    rw [hreset]
    exact .of_some ⟨rfl, by rw [if_neg he]⟩

theorem lewiAsyncAcquireCpus_asks (x : Ledger) (h : x.info.prevRequested = x.withdrawn) (s : Shdata) {n : ℤ}
    (hn : 0 < n) : Post (fun r => r.2.error = .success ∨ r.2.error = .noted →
      ∃ o, acquireCpus E c s pid (addU32 n.toNat x.withdrawn) nodeSize = some (r.1, o))
      (lewiAsyncAcquireCpus E c s nodeSize pid x.info n) := by
  unfold lewiAsyncAcquireCpus
  rw [if_neg hn.ne', if_pos hn, h]
  exact Post.bind (P := fun r => acquireCpus E c s pid (addU32 n.toNat x.withdrawn) nodeSize = some r)
    (fun _ hr => hr) fun r hr => .of_some fun _ => ⟨r.2, hr⟩

theorem asksAgain (x : Ledger) (h : x.info.prevRequested = x.withdrawn) : AsksAgain E c nodeSize pid x where
  reclaim s := by
    unfold lewiAsyncReclaim
    rw [h]
    exact Post.bind (P := fun r => reclaim E c s pid nodeSize x.withdrawn = some r)
      (fun _ hr => hr) fun r hr => .of_some fun _ => ⟨r.2, hr⟩
  acquireCpus s n hn := lewiAsyncAcquireCpus_asks x h s hn
  enable s hpos hlt := by
    unfold lewiAsyncEnable
    rw [if_pos (h ▸ hpos)]
    refine Post.bind (P := fun r => r.2.error = .success ∨ r.2.error = .noted →
      ∃ o, acquireCpus E c s pid (addU32 (subToInt x.info.prevRequested 0).toNat x.withdrawn) nodeSize = some (r.1, o))
      ?_ fun r hr => .of_some ?_
    · have hne : subToInt x.info.prevRequested 0 ≠ 0 := by
        rw [h, subToInt, Int.bmod_eq_emod]
        split <;> omega
      rcases lt_or_gt_of_ne hne with hneg | hpos
      · unfold lewiAsyncAcquireCpus
        rw [if_neg hne, if_neg (not_lt.mpr hneg.le)]
        exact .of_some fun he => absurd he (by simp)
      · exact lewiAsyncAcquireCpus_asks x h s hpos
    · dsimp only
      split
      · exact hr
      · exact hr

/-- What the process can rely on along the run. -/
structure Kept (pid : Pid) (x : Ledger) : Prop where
  tidy : Tidy pid x.shdata
  saved : x.info.prevRequested = x.withdrawn

theorem remembers_iff_safe (hp : pid ≠ 0) {x : Ledger} (hx : Kept pid x) (e : SavedEvent) :
    Remembers E c nodeSize pid x e ↔ Safe E c nodeSize pid x e := by
  have hiff : Remembers E c nodeSize pid x e ↔
      ∀ x' ∈ x.event E c nodeSize pid e, x'.info.prevRequested = x'.withdrawn :=
    forall₂_congr fun x' _ => and_iff_left_of_imp (asksAgain x')
  rw [hiff]
  cases e with
  | other c' op =>
    refine iff_true_intro fun x' hx' => ?_
    obtain ⟨r, -, rfl⟩ := Option.map_eq_some_iff.mp hx'
    exact hx.saved
  | own w =>
    unfold Ledger.event Safe
    dsimp only
    cases hcall : w.call E c nodeSize pid x.shdata x.info with
    | none => simp
    | some r =>
      cases hslot : slot c pid x.shdata with
      | none =>
        have := (call_refused hslot w r hcall).2
        simp [this, hx.saved]
      | some i =>
        have hattached : c.shmHandler = true ∧ getProcess c x.shdata pid = some i := by
          unfold slot at hslot
          split at hslot
          · exact ⟨‹_›, hslot⟩
          · cases hslot
        have hr := call_saves hx.tidy hp hattached.1 hattached.2 w r hcall
        simp [hr.withdrawn, ← hx.saved, hr.saved]

theorem call_tame (w : Withdrawal) : Post (fun r => Tame s r.1) (w.call E c nodeSize pid s info) := by
  have hkeeps : ∀ n, Post (fun r => Tame s r.1) (lewiAsyncLendKeepCpus E c s nodeSize pid info n) :=
    fun n => lendKeepCpus_tame.bind fun _ h => .of_some h
  cases w with
  | lend => exact hkeeps 1
  | intoBlockingCall keepCpu => exact (hkeeps _).bind fun _ h => .of_some h
  | lendCpus n =>
    unfold Withdrawal.call lewiAsyncLendCpus
    dsimp only
    split
    · exact .of_some (Tame.refl s)
    split
    · exact .of_some (Tame.refl s)
    · exact lendCpus_tame.bind fun _ h => .of_some h
  | disable => exact reset_tame.bind fun _ h => .of_some h

theorem event_tidy (hp : pid ≠ 0) {x : Ledger} (ht : Tidy pid x.shdata) {e : SavedEvent}
    (he : ∀ c' op, e = .other c' op → op.pid ≠ pid) :
    Post (fun x' => Tidy pid x'.shdata) (x.event E c nodeSize pid e) := by
  intro x' hx'
  cases e with
  | own w =>
    obtain ⟨r, hr, rfl⟩ := Option.map_eq_some_iff.mp hx'
    exact (call_tame w r hr).tidy ht
  | other c' op =>
    obtain ⟨r, hr, rfl⟩ := Option.map_eq_some_iff.mp hx'
    refine exec_tidy hp ht ?_ r hr
    have hop := he c' op rfl
    cases op with
    | init p n => exact fun heq => absurd heq hop
    | _ => trivial

/-- **When a withdrawn request is not forgotten.** Whatever the other processes do, the saved number stays the number
of CPUs withdrawn along a run if and only if every call that withdraws some finds none saved, fits its number in an
`unsigned int`, and, where it resets a process below its initial CPUs, finds the missing ones. -/
theorem saved_iff (hp : pid ≠ 0) (h : Reachable E (RegistersOnce pid) s) (events : List SavedEvent)
    (hother : ∀ e ∈ events, ∀ c' op, e = .other c' op → op.pid ≠ pid) :
    Along (Ledger.next E c nodeSize pid) (Remembers E c nodeSize pid) ⟨s, {}, 0⟩ events ↔
      Along (Ledger.next E c nodeSize pid) (Safe E c nodeSize pid) ⟨s, {}, 0⟩ events := by
  refine Along.congr (I := Kept pid) (fun x e hx he hsafe => ?_) (fun x e hx _ => remembers_iff_safe hp hx e) _ _
    ⟨reachable_tidy hp h, rfl⟩ hother
  have hremembers := (remembers_iff_safe hp hx e).mpr hsafe
  unfold Ledger.next
  cases hevent : x.event E c nodeSize pid e with
  | none => exact hx
  | some x' => exact ⟨event_tidy hp hx.tidy he x' hevent, (hremembers x' hevent).1⟩

end Takes

/-! ## Two runs

Process 1 has its two CPUs and two that it borrowed from process 2. -/

def Registered : Caller → Shdata → Op → Prop := fun _ _ op => match op with
  | .init p _ => p ≠ 1
  | _ => True

instance (c : Caller) (s : Shdata) : DecidablePred (Registered c s)
  | .init p _ => inferInstanceAs (Decidable (p ≠ 1))
  | .lendCpus _ _ _ | .lendKeepCpus _ _ _ | .reclaim _ _ _ | .acquireCpus _ _ _ | .borrowCpus _ _ | .reset _ _
  | .removeRequests _ | .finalize _ _ => inferInstanceAs (Decidable True)

def borrowed : Option Shdata := replay release Registered
  (calls [.init 2 2, .lendCpus 2 2 4, .borrowCpus 1 2]) (init { maxProcesses := 4 } {} 1 2).1

theorem borrowed_reachable {s : Shdata} (h : borrowed = some s) : Reachable release (RegistersOnce 1) s := by
  have hstart : Lib.Run (Step release (RegistersOnce 1)) {} (init { maxProcesses := 4 } {} 1 2).1 :=
    .single (.call { maxProcesses := 4 } (.init 1 2) (fun _ _ => Nat.zero_ne_one) rfl)
  refine hstart.trans ((replay_run h).lift id fun a b hstep => ?_)
  cases hstep with
  | call c op hadm he =>
    refine .call c op ?_ he
    cases op with
    | init p n => exact fun heq => absurd heq hadm
    | _ => trivial
  | unlink h0 => exact .unlink h0

/-- **Two lends in a row.** Each of the two calls lends one CPU that was borrowed; the second one saves `1` where two
CPUs are gone. -/
theorem lent_twice : ¬∀ s, Reachable release (RegistersOnce 1) s →
    Along (Ledger.next release { maxProcesses := 4 } 4 1) (Remembers release { maxProcesses := 4 } 4 1) ⟨s, {}, 0⟩
      [.own (.lendCpus 1), .own (.lendCpus 1)] := by
  intro hall
  have hrun : (borrowed.map fun s =>
      (((Ledger.next release { maxProcesses := 4 } 4 1 ⟨s, {}, 0⟩ (.own (.lendCpus 1))).event release
        { maxProcesses := 4 } 4 1 (.own (.lendCpus 1))).map fun x => (x.info.prevRequested, x.withdrawn))) =
        some (some (1, 2)) := by decide
  obtain ⟨s, hs, hevent⟩ := Option.map_eq_some_iff.mp hrun
  obtain ⟨x, hx, hpair⟩ := Option.map_eq_some_iff.mp hevent
  obtain ⟨hsaved, hwithdrawn⟩ := Prod.mk.inj hpair
  have := ((hall s (borrowed_reachable hs)).2.1 x hx).1
  omega

/-- Process 1 lends one CPU that it borrowed while process 2 acquires one, then tries to lend more than it has. -/
theorem saved_iff_once : ∃ s, borrowed = some s ∧
    Along (Ledger.next release { maxProcesses := 4 } 4 1) (Remembers release { maxProcesses := 4 } 4 1) ⟨s, {}, 0⟩
      [.own (.lendCpus 1), .other { maxProcesses := 4 } (.acquireCpus 2 1 4), .own (.lendCpus 9)] := by
  obtain ⟨s, hs, hsafe⟩ := Option.map_eq_some_iff.mp (by decide : (borrowed.map fun s =>
    decide (Along (Ledger.next release { maxProcesses := 4 } 4 1) (Safe release { maxProcesses := 4 } 4 1) ⟨s, {}, 0⟩
      [.own (.lendCpus 1), .other { maxProcesses := 4 } (.acquireCpus 2 1 4), .own (.lendCpus 9)])) = some true)
  have hother : ∀ e ∈ [SavedEvent.own (.lendCpus 1), .other { maxProcesses := 4 } (.acquireCpus 2 1 4),
      .own (.lendCpus 9)], ∀ c' op, e = .other c' op → op.pid ≠ 1 := by
    intro e he c' op heq
    simp only [mem_cons, not_mem_nil, or_false] at he
    rcases he with rfl | rfl | rfl
    · cases heq
    · cases heq
      decide
    · cases heq
  exact ⟨s, hs, (saved_iff (by decide) (borrowed_reachable hs) _ hother).mpr (of_decide_eq_true hsafe)⟩

end Dlb.LewiAsync

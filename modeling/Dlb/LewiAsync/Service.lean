import Dlb.Lib.Post
import Dlb.LewiAsync.Conservation

/-!
# No CPU is idle while a request is open

A lend hands CPUs to the queued requests first, and every call that queues a request has drained the idle pool
(`work_conserving`). The lend relies on the queue being sorted: with two requests more than `2 ^ 31` apart it leaves
CPUs idle and a request open (`idle_beside_request`).
-/

namespace Dlb.LewiAsync

open Lib (Post)

def Served (s : Shdata) : Prop := 0 < s.idleCpus → s.requests = []

/-- A change that drains the idle pool, or neither adds idle CPUs nor opens the first request. -/
def Quiet (s s' : Shdata) : Prop :=
  s'.idleCpus = 0 ∨ s'.idleCpus ≤ s.idleCpus ∧ (s.requests = [] → s'.requests = [])

theorem Quiet.refl (s : Shdata) : Quiet s s := Or.inr ⟨le_rfl, id⟩

theorem Quiet.trans {s1 s2 s3 : Shdata} (h1 : Quiet s1 s2) (h2 : Quiet s2 s3) : Quiet s1 s3 := by
  rcases h2 with h2 | ⟨hle2, hq2⟩
  · exact Or.inl h2
  rcases h1 with h1 | ⟨hle1, hq1⟩
  · exact Or.inl (by omega)
  · exact Or.inr ⟨hle2.trans hle1, hq2 ∘ hq1⟩

theorem Quiet.served {s s' : Shdata} (h : Quiet s s') (hs : Served s) : Served s' := by
  intro hpos
  rcases h with h | ⟨hle, hq⟩
  · omega
  · exact hq (hs (by omega))

section Lend

variable {E : Env} {c : Caller} {s : Shdata} {i n maxreqs : ℕ}

theorem resolveRequests_frame (rs : List LewiRequest) :
    Post (fun r => r.1.idleCpus = s.idleCpus ∧ r.1.requests = s.requests) (resolveRequests c s rs) := by
  induction rs generalizing s with
  | nil => exact .of_some ⟨rfl, rfl⟩
  | cons r rs ih => exact (Post.trivial _).bind fun j _ => ih.bind fun _ h => .of_some h

theorem lendNcpusToShmem_served (hs : Served s) (hspread : Spread s.requests) (hm : s.requests.length ≤ maxreqs) :
    Post (fun r => Served r.1) (lendNcpusToShmem E c s n maxreqs) := by
  unfold lendNcpusToShmem queueLewiReqsSize
  split
  · rename_i h0
    exact .of_some fun _ => List.length_eq_zero_iff.mp h0
  · rename_i hne
    have hidle0 : s.idleCpus = 0 := by
      by_contra h0
      exact hne (List.length_eq_zero_iff.mpr (hs (Nat.pos_of_ne_zero h0)))
    refine Post.bind (fun r hpop => pop_served hpop hspread hm) fun r hr => ?_
    refine (resolveRequests_frame r.requests).mono fun s' h hpos => ?_
    rw [h.2]
    refine hr.resolve_left fun h0 => ?_
    rw [h.1] at hpos
    simp [h0, hidle0, addU32] at hpos

theorem remove_served (pid : Pid) (hs : Served s) :
    Served { s with requests := (queueLewiReqsRemove s.requests pid).2 } := by
  intro hpos
  have hlen := remove_length_le s.requests pid
  rw [show s.requests = [] from hs hpos, List.length_nil] at hlen
  rw [show s.requests = [] from hs hpos]
  exact List.length_eq_zero_iff.mp (Nat.le_zero.mp hlen)

theorem lendFrom_served {pid : Pid} (hs : Served s) (hspread : Spread (queueLewiReqsRemove s.requests pid).2)
    (hm : s.requests.length ≤ maxreqs) : Post (fun r => Served r.1) (lendFrom E c s i pid n maxreqs) := by
  refine (lendNcpusToShmem_served ?_ hspread ((remove_length_le _ _).trans hm)).bind fun _ h => .of_some h
  exact remove_served pid hs

end Lend

section Reclaim

variable {E : Env} {c : Caller} {s : Shdata} {i n maxreqs : ℕ}

theorem takeFromVictims_idle (rs : List LewiRequest) :
    Post (fun r => r.1.idleCpus = s.idleCpus) (takeFromVictims c s rs) := by
  induction rs generalizing s with
  | nil => exact .of_some rfl
  | cons r rs ih => exact (Post.trivial _).bind fun j _ => ih.bind fun _ h => .of_some h

theorem reclaimFromShmem_idle : Post (fun r => r.1.idleCpus = s.idleCpus) (reclaimFromShmem E c s i n maxreqs) := by
  refine (Post.trivial _).bind fun _ _ => (Post.trivial _).bind fun _ _ => (Post.trivial _).bind fun _ _ =>
    (Post.trivial _).bind fun p _ => ?_
  split
  · exact (takeFromVictims_idle p.requests).bind fun _ h => .of_some h
  · exact .of_some rfl

theorem borrowFirst_quiet (s : Shdata) (i n : ℕ) :
    Quiet s (borrowFirst s i n).1 ∧ (0 < n - (borrowFirst s i n).2 → (borrowFirst s i n).1.idleCpus = 0) := by
  unfold borrowFirst
  dsimp only
  split
  · exact ⟨Or.inr ⟨Nat.sub_le _ _, id⟩, fun h => show s.idleCpus - min s.idleCpus n = 0 by omega⟩
  · exact ⟨Quiet.refl s, fun h => show s.idleCpus = 0 by omega⟩

theorem reclaimLater_idle {e : DlbError} :
    Post (fun r => r.1.idleCpus = s.idleCpus ∧ (n = 0 → r.1.requests = s.requests))
      (reclaimLater E c s i n maxreqs e) := by
  unfold reclaimLater
  split
  · exact reclaimFromShmem_idle.mono fun _ h => ⟨h, fun h0 => by omega⟩
  · exact .of_some ⟨rfl, fun _ => rfl⟩

theorem borrowAndReclaim_quiet : Post (fun r => Quiet s r.1) (borrowAndReclaim E c s i n maxreqs) := by
  obtain ⟨hq, h0⟩ := borrowFirst_quiet s i n
  refine reclaimLater_idle.mono fun r h => hq.trans ?_
  rcases Nat.eq_zero_or_pos (n - (borrowFirst s i n).2) with hn | hn
  · exact Or.inr ⟨h.1.le, fun hnil => (h.2 hn).trans hnil⟩
  · exact Or.inl (h.1.trans (h0 hn))

theorem attendPrevRequested_quiet (s : Shdata) (i : ℕ) (pid : Pid) (k : ℕ) :
    Quiet s (attendPrevRequested s i pid k) := by
  obtain ⟨hq, h0⟩ := borrowFirst_quiet s i k
  unfold attendPrevRequested
  dsimp only
  split
  · rename_i hpos; exact Or.inl (h0 hpos)
  · exact hq

theorem resetProcess_served (hs : Served s) (hm : s.requests.length ≤ maxreqs)
    (hspread : (s.processes i).initialNcpus < (s.processes i).currentNcpus →
      Spread (queueLewiReqsRemove s.requests (s.processes i).pid).2) :
    Post (fun r => Served r.1) (resetProcess E c s i maxreqs) := by
  have hs1 := remove_served (s.processes i).pid hs
  unfold resetProcess
  dsimp only
  split
  · rename_i hlt
    refine Post.bind ?_ fun _ h => .of_some h
    exact lendNcpusToShmem_served hs1 (hspread hlt) ((remove_length_le _ _).trans hm)
  · split
    · exact borrowAndReclaim_quiet.bind fun _ h => .of_some (h.served hs1)
    · exact .of_some hs1

end Reclaim

/-! ## Runs -/

/-- The caller's array has room for every queued request. -/
def RoomForRequests (s : Shdata) : Op → Prop
  | .lendCpus _ _ maxreqs | .lendKeepCpus _ _ maxreqs | .reclaim _ maxreqs _ | .acquireCpus _ _ maxreqs
  | .reset _ maxreqs | .finalize _ maxreqs => s.requests.length ≤ maxreqs
  | .init .. | .borrowCpus .. | .removeRequests .. => True

/-- Whoever lends, the requests of the other processes differ by less than `2 ^ 31`. -/
def SortsRequests (c : Caller) (s : Shdata) : Op → Prop
  | .lendCpus pid _ _ | .lendKeepCpus pid _ _ => Spread (queueLewiReqsRemove s.requests pid).2
  | .reset pid _ | .finalize pid _ => ∀ i ∈ getProcess c s pid,
    (s.processes i).initialNcpus < (s.processes i).currentNcpus → Spread (queueLewiReqsRemove s.requests pid).2
  | .init .. | .reclaim .. | .acquireCpus .. | .borrowCpus .. | .removeRequests .. => True

instance (s : Shdata) : DecidablePred (RoomForRequests s)
  | .lendCpus _ _ _ | .lendKeepCpus _ _ _ | .reclaim _ _ _ | .acquireCpus _ _ _ | .reset _ _ | .finalize _ _ =>
    inferInstanceAs (Decidable (_ ≤ _))
  | .init _ _ | .borrowCpus _ _ | .removeRequests _ => inferInstanceAs (Decidable True)

instance (c : Caller) (s : Shdata) : DecidablePred (SortsRequests c s)
  | .lendCpus _ _ _ | .lendKeepCpus _ _ _ => inferInstanceAs (Decidable (Spread _))
  | .reset pid _ | .finalize pid _ => inferInstanceAs (Decidable (∀ i ∈ getProcess c s pid,
    (s.processes i).initialNcpus < (s.processes i).currentNcpus → Spread (queueLewiReqsRemove s.requests pid).2))
  | .init _ _ | .reclaim _ _ _ | .acquireCpus _ _ _ | .borrowCpus _ _ | .removeRequests _ =>
    inferInstanceAs (Decidable True)

section Runs

variable {E : Env} {c : Caller} {s : Shdata} {pid : Pid} {n k maxreqs : ℕ}

theorem init_served (hs : Served s) : Served (init c s pid n).1 := by
  have hs1 : Served (if s.attachedNprocs + 1 = 1 then
      { s with attachedNprocs := 1, maxProcesses := c.maxProcesses, idleCpus := 0, requests := [] }
      else { s with attachedNprocs := s.attachedNprocs + 1 }) := by
    split
    · exact fun h => absurd h (lt_irrefl 0)
    · exact hs
  unfold init
  generalize (if s.attachedNprocs + 1 = 1 then _ else _ : Shdata) = s1 at hs1 ⊢
  dsimp only
  split
  · split <;> exact hs1
  · exact hs1

theorem lendCpus_post {P : Shdata → Prop} (hs : P s)
    (h : ∀ i, Post (fun r => P r.1) (lendFrom E c s i pid n maxreqs)) :
    Post (fun r => P r.1) (lendCpus E c s pid n maxreqs) := by
  unfold lendCpus
  split
  · exact .of_some hs
  split
  · exact .of_some hs
  split
  · exact .of_some hs
  split
  · exact .of_some hs
  · exact (h _).bind fun _ h => .of_some h

theorem lendKeepCpus_post {P : Shdata → Prop} (hs : P s)
    (h : ∀ i k, Post (fun r => P r.1) (lendFrom E c s i pid k maxreqs)) :
    Post (fun r => P r.1) (lendKeepCpus E c s pid n maxreqs) := by
  unfold lendKeepCpus
  split
  · exact .of_some hs
  split
  · exact .of_some hs
  split
  · exact .of_some hs
  split
  · exact .of_some hs
  · exact (h _ _).bind fun _ h => .of_some h

theorem lendCpus_served (hs : Served s) (hm : s.requests.length ≤ maxreqs)
    (hspread : Spread (queueLewiReqsRemove s.requests pid).2) :
    Post (fun r => Served r.1) (lendCpus E c s pid n maxreqs) :=
  lendCpus_post hs fun _ => lendFrom_served hs hspread hm

theorem lendKeepCpus_served (hs : Served s) (hm : s.requests.length ≤ maxreqs)
    (hspread : Spread (queueLewiReqsRemove s.requests pid).2) :
    Post (fun r => Served r.1) (lendKeepCpus E c s pid n maxreqs) :=
  lendKeepCpus_post hs fun _ _ => lendFrom_served hs hspread hm

theorem reclaim_quiet : Post (fun r => Quiet s r.1) (reclaim E c s pid maxreqs k) := by
  unfold reclaim
  split
  · exact .of_some (Quiet.refl s)
  split
  · exact .of_some (Quiet.refl s)
  split
  · refine borrowAndReclaim_quiet.bind fun r hq => .of_some ?_
    split
    · exact hq.trans (attendPrevRequested_quiet _ _ _ _)
    · exact hq
  · exact .of_some (Quiet.refl s)

theorem acquireCpus_quiet : Post (fun r => Quiet s r.1) (acquireCpus E c s pid n maxreqs) := by
  unfold acquireCpus
  split
  · exact .of_some (Quiet.refl s)
  split
  · exact .of_some (Quiet.refl s)
  split
  · exact .of_some (Quiet.refl s)
  rename_i i hget
  obtain ⟨hq, h0⟩ := borrowFirst_quiet s i n
  have hm : ncpusToReclaim ((borrowFirst s i n).1.processes i) (n - (borrowFirst s i n).2) ≤
      n - (borrowFirst s i n).2 := Nat.min_le_left _ _
  dsimp only
  refine reclaimLater_idle.bind fun r h => .of_some ?_
  -- something is reclaimed or queued only when borrowing took every idle CPU
  rcases Nat.eq_zero_or_pos (n - (borrowFirst s i n).2) with hn | hn
  · simp only [hn, Nat.zero_sub, ite_self, lt_irrefl, if_false]
    exact hq.trans (Or.inr ⟨h.1.le, fun hnil => (h.2 (by omega)).trans hnil⟩)
  · refine Or.inl (Eq.trans ?_ (h.1.trans (h0 hn)))
    rw [apply_ite Shdata.idleCpus, ite_self]

theorem reset_served (hs : Served s) (hm : s.requests.length ≤ maxreqs)
    (hspread : ∀ i ∈ getProcess c s pid, (s.processes i).initialNcpus < (s.processes i).currentNcpus →
      Spread (queueLewiReqsRemove s.requests pid).2) : Post (fun r => Served r.1) (reset E c s pid maxreqs) := by
  unfold reset
  split
  · exact .of_some hs
  split
  · exact .of_some hs
  rename_i i hget
  split
  · exact (resetProcess_served hs hm (by rw [getProcess_pid hget]; exact hspread i hget)).bind fun _ h => .of_some h
  · exact .of_some hs

theorem finalize_served (hs : Served s) (hm : s.requests.length ≤ maxreqs)
    (hspread : ∀ i ∈ getProcess c s pid, (s.processes i).initialNcpus < (s.processes i).currentNcpus →
      Spread (queueLewiReqsRemove s.requests pid).2) : Post (fun r => Served r.1) (finalize E c s pid maxreqs) := by
  unfold finalize
  split
  · exact .of_some hs
  split
  · exact .of_some hs
  rename_i i hget
  exact (resetProcess_served hs hm (by rw [getProcess_pid hget]; exact hspread i hget)).bind fun _ h => .of_some h

theorem borrowCpus_quiet (c : Caller) (s : Shdata) (pid : Pid) (n : ℕ) : Quiet s (borrowCpus c s pid n).1 := by
  unfold borrowCpus
  split
  · exact Quiet.refl s
  split
  · exact Quiet.refl s
  · exact (borrowFirst_quiet _ _ _).1

theorem removeRequests_served (hs : Served s) : Served (removeRequests c s pid) := by
  unfold removeRequests
  split
  · exact hs
  · exact remove_served pid hs

theorem exec_served {op : Op} (hs : Served s) (hm : RoomForRequests s op) (hsort : SortsRequests c s op) :
    Post (fun r => Served r.1) (exec E c s op) := by
  cases op with
  | init pid n => exact .of_some (init_served hs)
  | lendCpus pid n maxreqs => exact lendCpus_served hs hm hsort
  | lendKeepCpus pid n maxreqs => exact lendKeepCpus_served hs hm hsort
  | reclaim pid maxreqs k => exact reclaim_quiet.mono fun _ h => h.served hs
  | acquireCpus pid n maxreqs => exact acquireCpus_quiet.mono fun _ h => h.served hs
  | borrowCpus pid n => exact .of_some ((borrowCpus_quiet c s pid n).served hs)
  | reset pid maxreqs => exact reset_served hs hm hsort
  | removeRequests pid => exact .of_some (removeRequests_served hs)
  | finalize pid maxreqs => exact finalize_served hs hm hsort

/-- **No CPU stays idle while a request is open**, in every state of every run whose lends sort their requests. -/
theorem work_conserving (h : Reachable E (fun c s op => RoomForRequests s op ∧ SortsRequests c s op) s) :
    0 < s.idleCpus → s.requests = [] := by
  refine Lib.Run.invariant (P := Served) h (fun h => absurd h (lt_irrefl 0)) fun a b hs hstep => ?_
  cases hstep with
  | call c op hadm he => exact exec_served hs hadm.1 hadm.2 _ he
  | unlink _ => exact fun h => absurd h (lt_irrefl 0)

end Runs

/-- Process 2 queues a request, process 1 lends more than that. -/
theorem work_conserving_run : ∃ s, replay release (fun c s op => RoomForRequests s op ∧ SortsRequests c s op)
    (calls [.init 1 4, .init 2 2, .acquireCpus 2 1 4, .lendCpus 1 3 4]) {} = some s ∧ 0 < s.idleCpus ∧
    s.requests = [] := by
  obtain ⟨s, hs, hpos⟩ := Option.map_eq_some_iff.mp (by decide : ((replay release
    (fun c s op => RoomForRequests s op ∧ SortsRequests c s op)
      (calls [.init 1 4, .init 2 2, .acquireCpus 2 1 4, .lendCpus 1 3 4]) {}).map fun s => decide (0 < s.idleCpus)) =
        some true)
  exact ⟨s, hs, of_decide_eq_true hpos, work_conserving (replay_run hs) (of_decide_eq_true hpos)⟩

/-- **A CPU can stay idle beside a request.** Process 1 queues `2 ^ 32 - 2` CPUs in two calls and process 2 queues one;
the smaller request is sorted first, so process 3 lends two CPUs to each, of which process 2 takes one. -/
theorem idle_beside_request : ¬∀ s, Reachable release (fun _ s op => Admitted s op ∧ RoomForRequests s op) s →
    0 < s.idleCpus → s.requests = [] := by
  intro h
  have hrun : ((replay release (fun _ s op => Admitted s op ∧ RoomForRequests s op) (calls [.init 1 1, .init 2 1,
      .init 3 4, .acquireCpus 1 (2 ^ 31 - 1) 4, .acquireCpus 1 (2 ^ 31 - 1) 4, .acquireCpus 2 1 4, .lendCpus 3 4 4])
      {}).map fun s => decide (0 < s.idleCpus ∧ s.requests ≠ [])) = some true := by decide
  obtain ⟨s, hs, hbad⟩ := Option.map_eq_some_iff.mp hrun
  obtain ⟨hpos, hne⟩ := of_decide_eq_true hbad
  exact hne (h s (replay_run hs) hpos)

end Dlb.LewiAsync

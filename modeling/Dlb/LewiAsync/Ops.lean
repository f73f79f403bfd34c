import Dlb.LewiAsync.Invariant

/-!
# What the LeWI-async operations do

One lemma for each piece that the operations are made of, from the innermost loop outwards: the resolved requests of a
lend (`resolveRequests_good`), a lend (`lendNcpusToShmem_good`), the surplus queue (`surplusQueue_eq`), the victims of
a reclaim (`takeFromVictims_spec`), a reclaim (`reclaimFromShmem_spec`), "borrow first" (`borrowFirst_spec`) and the
two together (`borrowAndReclaim_spec`).
-/

namespace Dlb.LewiAsync

open List

open Finset (range)

/-- The operation did not register or unregister anybody. -/
structure Frame (s s' : Shdata) : Prop where
  head : s'.procListHead = s.procListHead
  pid : ∀ j, (s'.processes j).pid = (s.processes j).pid
  initialNcpus : ∀ j, (s'.processes j).initialNcpus = (s.processes j).initialNcpus

theorem Frame.refl (s : Shdata) : Frame s s := ⟨rfl, fun _ => rfl, fun _ => rfl⟩

theorem Frame.trans {s1 s2 s3 : Shdata} (h1 : Frame s1 s2) (h2 : Frame s2 s3) : Frame s1 s3 :=
  ⟨h2.head.trans h1.head, fun j => (h2.pid j).trans (h1.pid j),
    fun j => (h2.initialNcpus j).trans (h1.initialNcpus j)⟩

theorem Frame.registered {s s' : Shdata} (h : Frame s s') : registered s' = registered s := by
  simp [LewiAsync.registered, h.head, h.pid]

theorem Frame.requests {s s' : Shdata} (h : Frame s s') (queue : List LewiRequest) :
    Frame s { s' with requests := queue } := ⟨h.head, h.pid, h.initialNcpus⟩

theorem setNcpus_frame (s : Shdata) (i n : ℕ) : Frame s (s.setNcpus i n) :=
  ⟨rfl, fun j => by simp, fun j => by simp⟩

/-! ## Lend -/

section Lend

variable {E : Env} {c : Caller} {d : ℕ} {s : Shdata}

theorem resolveRequests_good {rs : List LewiRequest} (g : Good (d + total rs) s)
    (hreg : ∀ r ∈ rs, r.pid ≠ 0 ∧ ∃ i, (s.processes i).pid = r.pid) :
    ∃ s' out, resolveRequests c s rs = some (s', out) ∧ Good d s' ∧ Frame s s' ∧ s'.requests = s.requests ∧
      ∀ j, (s.processes j).pid ∉ pids rs → (s'.processes j).currentNcpus = (s.processes j).currentNcpus := by
  induction rs generalizing s with
  | nil => exact ⟨s, [], rfl, by simpa using g, .refl s, rfl, fun _ _ => rfl⟩
  | cons r rs ih =>
    obtain ⟨hr0, i, hi⟩ := hreg r mem_cons_self
    have hpid : (s.processes i).pid ≠ 0 := by rw [hi]; exact hr0
    have g1 : Good (d + total rs) (s.addNcpus i r.howmany) := by
      refine addNcpus_good ?_ hpid
      have : d + total (r :: rs) = d + total rs + r.howmany := by
        simp only [total, held_cons, if_true]; omega
      rwa [← this]
    have hf : Frame s (s.addNcpus i r.howmany) := setNcpus_frame _ _ _
    obtain ⟨s', out, he, g', hf', hq, hcur⟩ := ih g1 fun x hx => by
      obtain ⟨hx0, j, hj⟩ := hreg x (mem_cons_of_mem _ hx)
      exact ⟨hx0, j, (hf.pid j).trans hj⟩
    refine ⟨s', ⟨r.pid, ((s.addNcpus i r.howmany).processes i).currentNcpus⟩ :: out, ?_, g', hf.trans hf', hq,
      fun j hj => ?_⟩
    · have hget : getProcess c s r.pid = some i := by rw [← hi]; exact g.getProcess c hpid
      simp [resolveRequests, hget, he]
    · simp only [pids_cons, mem_cons, not_or] at hj
      have hji : j ≠ i := by rintro rfl; exact hj.1 hi
      rw [hcur j (by rw [hf.pid]; exact hj.2), addNcpus_eq, setNcpus_currentNcpus, if_neg hji]

/-- What a lend does to the others: it takes requests from the queue, and serves their processes only. -/
structure Lent (s s' : Shdata) : Prop where
  frame : Frame s s'
  queued : ∀ p ∈ pids s'.requests, p ∈ pids s.requests
  others : ∀ j, (s.processes j).pid ∉ pids s.requests →
    (s'.processes j).currentNcpus = (s.processes j).currentNcpus

theorem resolvePopped_good {n maxreqs : ℕ} {r : Popped} (g : Good (d + n) s)
    (hpop : queueLewiReqsPopNcpus E.qsort E.debug s.requests n maxreqs = some r) :
    ∃ s' out, resolveRequests c { s with requests := r.queue, idleCpus := addU32 s.idleCpus r.ncpus } r.requests =
      some (s', out) ∧ Good d s' ∧ Lent s s' := by
  obtain ⟨hreq, hq, hnd⟩ := pop_pids hpop
  have htot := pop_total hpop
  have g1 : Good (d + total r.requests + r.ncpus) { s with requests := r.queue } := by
    have : d + total r.requests + r.ncpus = d + n := by omega
    rw [this]
    exact requests_good g (hnd g.nodup).2 fun p hp => g.queued p (hq p hp)
  obtain ⟨s', out, he, g', hf, hreq', hcur⟩ :=
    resolveRequests_good (c := c) (idle_add_good g1) fun x hx => g.queued x.pid (hreq _ (mem_pids hx))
  exact ⟨s', out, he, g', ⟨hf.head, hf.pid, hf.initialNcpus⟩, fun p hp => hq p (by rwa [hreq'] at hp),
    fun j hj => hcur j fun hm => hj (hreq _ hm)⟩

theorem lendNcpusToShmem_good {n maxreqs : ℕ} {s' : Shdata} {out : List LewiRequest} (g : Good (d + n) s)
    (h : lendNcpusToShmem E c s n maxreqs = some (s', out)) : Good d s' ∧ Lent s s' := by
  unfold lendNcpusToShmem queueLewiReqsSize at h
  split at h
  · cases h
    exact ⟨idle_add_good g, ⟨rfl, fun _ => rfl, fun _ => rfl⟩, fun _ hp => hp, fun _ _ => rfl⟩
  · obtain ⟨r, hpop, hres⟩ := Option.bind_eq_some_iff.mp h
    obtain ⟨s1, out1, he, g1, hl⟩ := resolvePopped_good (c := c) g hpop
    rw [he] at hres
    cases hres
    exact ⟨g1, hl⟩

theorem lendNcpusToShmem_returns {n maxreqs : ℕ} (g : Good (d + n) s) (hE : E.debug = false) :
    ∃ s' out, lendNcpusToShmem E c s n maxreqs = some (s', out) := by
  unfold lendNcpusToShmem queueLewiReqsSize
  split
  · exact ⟨_, _, rfl⟩
  · obtain ⟨r, hpop⟩ := @pop_returns E.qsort E.debug s.requests n maxreqs (Or.inl hE)
    obtain ⟨s1, out1, he, -⟩ := resolvePopped_good (c := c) g hpop
    exact ⟨s1, out1, by rw [hpop]; exact he⟩

end Lend

/-! ## The surplus queue -/

section Surplus

variable {d : ℕ} {s : Shdata}

/-- The process in slot `p` has more CPUs than it started with. -/
def hasSurplus (s : Shdata) (p : ℕ) : Bool :=
  decide ((s.processes p).pid ≠ 0 ∧ (s.processes p).initialNcpus < (s.processes p).currentNcpus)

/-- The entry of slot `p` in the surplus queue. -/
def surplusEntry (s : Shdata) (p : ℕ) : LewiRequest :=
  ⟨(s.processes p).pid, (s.processes p).currentNcpus - (s.processes p).initialNcpus⟩

/-- The entries of the slots below `n` that have a surplus. -/
def surplusEntries (s : Shdata) (n : ℕ) : List LewiRequest :=
  ((List.range n).filter (hasSurplus s)).map (surplusEntry s)

theorem surplusEntries_succ (s : Shdata) (n : ℕ) :
    surplusEntries s (n + 1) = surplusEntries s n ++ if hasSurplus s n then [surplusEntry s n] else [] := by
  unfold surplusEntries
  rw [range_succ, filter_append, map_append, filter_singleton]
  cases hasSurplus s n <;> rfl

theorem mem_surplusEntries {n : ℕ} {r : LewiRequest} :
    r ∈ surplusEntries s n ↔ ∃ p < n, hasSurplus s p = true ∧ surplusEntry s p = r := by
  simp [surplusEntries, and_assoc]

theorem surplusEntries_pids {n : ℕ} (hd : ∀ i j, (s.processes i).pid ≠ 0 →
    (s.processes i).pid = (s.processes j).pid → i = j) : (pids (surplusEntries s n)).Nodup := by
  unfold surplusEntries pids
  rw [map_map]
  refine List.Nodup.map_on ?_ (nodup_range.filter _)
  intro i hi j _ hij
  have hi := (mem_filter.mp hi).2
  simp only [hasSurplus, decide_eq_true_eq] at hi
  exact hd i j hi.1 hij

theorem surplusEntries_total (s : Shdata) (n : ℕ) : total (surplusEntries s n) =
    ∑ i ∈ range n, if hasSurplus s i then (s.processes i).currentNcpus - (s.processes i).initialNcpus else 0 := by
  induction n with
  | zero => rfl
  | succ n ih =>
    rw [surplusEntries_succ, Finset.sum_range_succ, ← ih, total, held_append]
    cases hasSurplus s n <;> simp [surplusEntry]

theorem surplusEntries_length (s : Shdata) : (surplusEntries s s.procListHead).length ≤ (registered s).card := by
  have h : ((List.range s.procListHead).filter (hasSurplus s)).toFinset ⊆ registered s := by
    intro p hp
    simp only [List.mem_toFinset, List.mem_filter, List.mem_range, hasSurplus, decide_eq_true_eq] at hp
    simp [registered, hp.1, hp.2.1]
  have hc := Finset.card_le_card h
  rw [toFinset_card_of_nodup (nodup_range.filter _)] at hc
  simpa [surplusEntries] using hc

theorem surplusFold_eq (hd : ∀ i j, (s.processes i).pid ≠ 0 → (s.processes i).pid = (s.processes j).pid → i = j)
    (n : ℕ) : (List.range n).foldl (fun surplus p =>
      let target := s.processes p
      if target.pid ≠ 0 ∧ target.initialNcpus < target.currentNcpus then
        (queueLewiReqsPush surplus target.pid (target.currentNcpus - target.initialNcpus)).2
      else surplus) [] = (surplusEntries s n).take (queueLewiReqsCapacity - 1) := by
  induction n with
  | zero => rfl
  | succ n ih =>
    rw [range_succ, foldl_append, ih, surplusEntries_succ]
    simp only [foldl_cons, foldl_nil]
    by_cases hs : (s.processes n).pid ≠ 0 ∧ (s.processes n).initialNcpus < (s.processes n).currentNcpus
    · have hb : hasSurplus s n = true := by simpa [hasSurplus] using hs
      have hnot : (s.processes n).pid ∉ pids (surplusEntries s n) := by
        intro hm
        obtain ⟨r, hr, hp⟩ := mem_map.mp hm
        obtain ⟨p, hpn, -, rfl⟩ := mem_surplusEntries.mp hr
        exact absurd (hd n p hs.1 hp.symm) (by omega)
      have hnot' : (s.processes n).pid ∉ pids ((surplusEntries s n).take (queueLewiReqsCapacity - 1)) := fun hm =>
        hnot ((take_sublist _ _).map _ |>.subset hm)
      rw [if_pos hs, hb, if_pos rfl]
      rcases Nat.lt_or_ge (surplusEntries s n).length (queueLewiReqsCapacity - 1) with hlt | hge
      · rw [push_absent hs.1 (by omega) hnot' (by rw [length_take]; omega), take_of_length_le hlt.le,
          take_of_length_le (by simp; omega)]
        rfl
      · rw [take_append_of_le_length hge]
        have hfull : ((surplusEntries s n).take (queueLewiReqsCapacity - 1)).length = queueLewiReqsCapacity - 1 := by
          rw [length_take]; omega
        unfold queueLewiReqsPush
        rw [if_neg hs.1, if_neg (by omega), findIdx_none_iff.mpr hnot']
        simp [hfull]
    · have hb : hasSurplus s n = false := by simpa [hasSurplus] using hs
      rw [if_neg hs, hb]
      simp

theorem surplusQueue_eq (hd : ∀ i j, (s.processes i).pid ≠ 0 → (s.processes i).pid = (s.processes j).pid → i = j) :
    surplusQueue s = (surplusEntries s s.procListHead).take (queueLewiReqsCapacity - 1) := surplusFold_eq hd _

theorem Good.surplusQueue (g : Good d s) (hr : (registered s).card < queueLewiReqsCapacity) :
    surplusQueue s = surplusEntries s s.procListHead := by
  rw [surplusQueue_eq g.distinct]
  have := surplusEntries_length s
  exact take_of_length_le (by omega)

theorem Good.surplus_total (g : Good d s) : total (surplusEntries s s.procListHead) =
    ∑ i ∈ range s.procListHead, ((s.processes i).currentNcpus - (s.processes i).initialNcpus) := by
  rw [surplusEntries_total]
  refine Finset.sum_congr rfl fun i _ => ?_
  by_cases hp : (s.processes i).pid = 0
  · simp [g.empty i hp]
  · simp only [hasSurplus, hp, ne_eq, not_false_eq_true, true_and, decide_eq_true_eq]
    split
    · rfl
    · omega

theorem Good.deficit_le (g : Good 0 s) (hidle : s.idleCpus = 0) {i : ℕ} (hi : (s.processes i).pid ≠ 0) :
    (s.processes i).initialNcpus - (s.processes i).currentNcpus ≤ total (surplusEntries s s.procListHead) := by
  rw [g.surplus_total]
  have hle := Lib.le_sum (fun j => (s.processes j).initialNcpus - (s.processes j).currentNcpus) (g.lt_head hi)
  have hsum : current s + ∑ j ∈ range s.procListHead, ((s.processes j).initialNcpus - (s.processes j).currentNcpus) =
      initial s + ∑ j ∈ range s.procListHead, ((s.processes j).currentNcpus - (s.processes j).initialNcpus) := by
    rw [current, initial, ← Finset.sum_add_distrib, ← Finset.sum_add_distrib]
    exact Finset.sum_congr rfl fun j _ => by omega
  have hc := g.conserved
  omega

theorem surplusQueue_congr {s' : Shdata} (hf : Frame s s')
    (h : ∀ j, (s'.processes j).currentNcpus - (s.processes j).initialNcpus =
      (s.processes j).currentNcpus - (s.processes j).initialNcpus) : LewiAsync.surplusQueue s' =
        LewiAsync.surplusQueue s := by
  have hlt : ∀ j, (s.processes j).initialNcpus < (s'.processes j).currentNcpus ↔
      (s.processes j).initialNcpus < (s.processes j).currentNcpus := fun j => by have := h j; omega
  simp only [LewiAsync.surplusQueue, hf.head, hf.pid, hf.initialNcpus, h, hlt]

end Surplus

/-! ## Reclaim -/

section Reclaim

variable {E : Env} {c : Caller} {d : ℕ} {s : Shdata} {i n maxreqs : ℕ}

/-- What `takeFromVictims` does to the others: each loses its entry in `rs`, and its request grows by it. -/
structure Taken (rs : List LewiRequest) (s s' : Shdata) : Prop where
  frame : Frame s s'
  idle : s'.idleCpus = s.idleCpus
  currentNcpus : ∀ j, (s'.processes j).currentNcpus = (s.processes j).currentNcpus - amount rs (s.processes j).pid
  queued : ∀ p ∈ pids s'.requests, p ∈ pids s.requests ∨ p ∈ pids rs
  requests : (∀ r ∈ rs, amount s.requests r.pid + r.howmany < 2 ^ 32) →
    ∀ p, amount s'.requests p = amount s.requests p + amount rs p

theorem takeFromVictims_spec {rs : List LewiRequest} (g : Good d s) (hr : (registered s).card < queueLewiReqsCapacity)
    (hnd : (pids rs).Nodup)
    (hrs : ∀ r ∈ rs, 0 < r.howmany ∧ r.pid ≠ 0 ∧ ∃ i, (s.processes i).pid = r.pid ∧
      r.howmany ≤ (s.processes i).currentNcpus) :
    ∃ s' out, takeFromVictims c s rs = some (s', out) ∧ Good (d + total rs) s' ∧ Taken rs s s' := by
  induction rs generalizing s d with
  | nil => exact ⟨s, [], rfl, by simpa using g, .refl s, rfl, fun j => by simp, fun _ => Or.inl, fun _ p => by simp⟩
  | cons r rs ih =>
    obtain ⟨hpos, hr0, i, hi, hle⟩ := hrs r mem_cons_self
    simp only [pids_cons, nodup_cons] at hnd
    have hpid : (s.processes i).pid ≠ 0 := by rw [hi]; exact hr0
    let s1 := s.subNcpus i r.howmany
    let s2 := { s1 with requests := (queueLewiReqsPush s1.requests r.pid r.howmany).2 }
    have hf1 : Frame s s2 := (setNcpus_frame s i _).requests _
    have g1 : Good (d + r.howmany) s1 := subNcpus_good g hpid hle
    have hpid1 : (s1.processes i).pid = r.pid := (hf1.pid i).trans hi
    have hr1 : (registered s1).card < queueLewiReqsCapacity := by
      rw [show registered s1 = registered s from hf1.registered]; exact hr
    have g2 : Good (d + r.howmany) s2 := by
      have := push_good g1 hr1 (by rw [hpid1]; exact hr0) hpos
      rwa [hpid1] at this
    have hroom : r.pid ∈ pids s.requests ∨ s.requests.length < queueLewiReqsCapacity - 1 := by
      rw [← hi]; exact g.room hr hpid
    have hcur1 : ∀ j, j ≠ i → (s2.processes j).currentNcpus = (s.processes j).currentNcpus := fun j hj => by
      show ((s.setNcpus i _).processes j).currentNcpus = _
      rw [setNcpus_currentNcpus, if_neg hj]
    obtain ⟨s', out, he, g', ht⟩ := ih g2 (by rw [hf1.registered]; exact hr) hnd.2 fun x hx => by
      obtain ⟨hx0, hxp, j, hj, hjle⟩ := hrs x (mem_cons_of_mem _ hx)
      have hji : j ≠ i := by
        rintro rfl
        exact hnd.1 (by rw [show r.pid = x.pid from hi.symm.trans hj]; exact mem_pids hx)
      exact ⟨hx0, hxp, j, (hf1.pid j).trans hj, by rw [hcur1 j hji]; exact hjle⟩
    refine ⟨s', ⟨r.pid, (s1.processes i).currentNcpus⟩ :: out, ?_, ?_, hf1.trans ht.frame, ht.idle, fun j => ?_,
      fun p hp => ?_, fun hfit p => ?_⟩
    · have hget : getProcess c s r.pid = some i := by rw [← hi]; exact g.getProcess c hpid
      simp only [takeFromVictims, hget, Option.bind_eq_bind, Option.bind_some]
      rw [he]
      rfl
    · have : d + total (r :: rs) = d + r.howmany + total rs := by
        simp only [total, held_cons, if_true]; omega
      rw [this]
      exact g'
    · rw [ht.currentNcpus, hf1.pid]
      by_cases hj : j = i
      · subst hj
        have hcur : (s2.processes j).currentNcpus = (s.processes j).currentNcpus - r.howmany := by
          show ((s.setNcpus j _).processes j).currentNcpus = _
          rw [setNcpus_currentNcpus, if_pos rfl]
        rw [hcur, hi, amount_eq_zero hnd.1]
        simp [amount_eq_zero hnd.1]
      · have hne : r.pid ≠ (s.processes j).pid := fun e =>
          hj (g.distinct i j hpid (hi.trans e)).symm
        rw [hcur1 j hj]
        simp [hne]
    · rw [pids_cons, mem_cons]
      rcases ht.queued p hp with h | h
      · exact (((push_spec g.nodup hr0 hpos hroom).2.2 p).mp h).imp_right Or.inl
      · exact Or.inr (Or.inr h)
    · have hpush := push_amount g.nodup hr0 hpos hroom (hfit r mem_cons_self)
      have hreq : ∀ q, amount s2.requests q = amount s.requests q + if q = r.pid then r.howmany else 0 := hpush
      rw [ht.requests ?_ p, hreq p]
      · simp only [amount, held_cons, eq_comm]; omega
      · intro x hx
        have hne : x.pid ≠ r.pid := fun e => hnd.1 (e ▸ mem_pids hx)
        rw [hreq, if_neg hne]
        exact hfit x (mem_cons_of_mem _ hx)

/-- No process is left without room in a counter of the request queue. -/
def QueueFits (s : Shdata) : Prop := ∀ r ∈ surplusQueue s, amount s.requests r.pid + r.howmany < 2 ^ 32

/-- What getting `n` CPUs back does: slot `i` has them; the others lose surplus only, and each request grows by what
was taken. -/
structure Reclaimed (i n : ℕ) (s s' : Shdata) : Prop where
  frame : Frame s s'
  own : (s'.processes i).currentNcpus = (s.processes i).currentNcpus + n
  loses : ∀ j, j ≠ i → (s'.processes j).currentNcpus ≤ (s.processes j).currentNcpus
  keeps : ∀ j, j ≠ i → (s'.processes j).currentNcpus < (s.processes j).currentNcpus →
    (s.processes j).initialNcpus ≤ (s'.processes j).currentNcpus
  queued : (s.processes i).pid ∈ pids s'.requests → (s.processes i).pid ∈ pids s.requests
  requests : QueueFits s → ∀ j, (s.processes j).pid ≠ 0 → amount s'.requests (s.processes j).pid =
    amount s.requests (s.processes j).pid + ((s.processes j).currentNcpus - (s'.processes j).currentNcpus)

theorem Good.popped_surplus {r : Popped} (g : Good d s) (hr : (registered s).card < queueLewiReqsCapacity)
    (hpop : queueLewiReqsPopNcpus E.qsort E.debug (LewiAsync.surplusQueue s) n maxreqs = some r) (j : ℕ)
    (hj : (s.processes j).pid ≠ 0) : amount r.requests (s.processes j).pid ≤
      (s.processes j).currentNcpus - (s.processes j).initialNcpus := by
  have hheld := pop_held hpop (· = (s.processes j).pid)
  have hnd : (pids (LewiAsync.surplusQueue s)).Nodup := by
    rw [g.surplusQueue hr]; exact surplusEntries_pids g.distinct
  by_cases hm : (s.processes j).pid ∈ pids (LewiAsync.surplusQueue s)
  · obtain ⟨x, hx, hp⟩ := mem_map.mp hm
    have hx' := hx
    rw [g.surplusQueue hr] at hx'
    obtain ⟨k, -, -, rfl⟩ := mem_surplusEntries.mp hx'
    have hkj : j = k := g.distinct j k hj hp.symm
    subst hkj
    have hamt : amount (LewiAsync.surplusQueue s) (s.processes j).pid =
        (s.processes j).currentNcpus - (s.processes j).initialNcpus := amount_of_mem hnd hx
    simp only [amount] at hamt hheld ⊢
    omega
  · have := amount_eq_zero hm
    simp only [amount] at this hheld ⊢
    omega

theorem reclaimFromShmem_spec (g : Good 0 s) (hr : (registered s).card < queueLewiReqsCapacity)
    (hm : (registered s).card ≤ maxreqs) (hs : Spread (surplusQueue s)) (hidle : s.idleCpus = 0)
    (hi : (s.processes i).pid ≠ 0) (hn : 0 < n)
    (hle : (s.processes i).currentNcpus + n ≤ (s.processes i).initialNcpus) :
    ∃ s' out, reclaimFromShmem E c s i n maxreqs = some (s', .success, out) ∧ Good 0 s' ∧ s'.idleCpus = 0 ∧
      Reclaimed i n s s' := by
  have hq := g.surplusQueue hr
  have hpos : ∀ x ∈ surplusQueue s, 0 < x.howmany := by
    intro x hx
    rw [hq] at hx
    obtain ⟨k, -, hk, rfl⟩ := mem_surplusEntries.mp hx
    simp only [hasSurplus, decide_eq_true_eq] at hk
    simp only [surplusEntry]
    omega
  have hnd : (pids (surplusQueue s)).Nodup := by rw [hq]; exact surplusEntries_pids g.distinct
  have hfit1 : addU32 (s.processes i).currentNcpus n = (s.processes i).currentNcpus + n := by
    have h1 := g.initial_le hi
    have h2 := g.fits
    exact addU32_of_lt (by omega)
  obtain ⟨r, hpop⟩ := @pop_returns E.qsort E.debug (surplusQueue s) n maxreqs (Or.inr hpos)
  have hlen : (surplusQueue s).length ≤ maxreqs := by
    rw [hq]; exact (surplusEntries_length s).trans hm
  have hzero : r.ncpus = 0 := by
    refine pop_all hpop hs hlen ?_
    have := g.deficit_le hidle hi
    rw [hq]
    omega
  have htot : total r.requests = n := by have := pop_total hpop; omega
  obtain ⟨hsub, -, hnd'⟩ := pop_pids hpop
  have hvict := g.popped_surplus hr hpop
  have hown : amount r.requests (s.processes i).pid = 0 := by have := hvict i hi; omega
  have hmem : ∀ x ∈ r.requests, x.pid ≠ 0 ∧ ∃ j, (s.processes j).pid = x.pid ∧ x ∈ r.requests ∧
      surplusEntry s j ∈ surplusQueue s ∧ x.howmany ≤ (surplusEntry s j).howmany := by
    intro x hx
    obtain ⟨y, hy, hyx⟩ := mem_map.mp (hsub _ (mem_pids hx))
    have hy' := hy
    rw [hq] at hy'
    obtain ⟨j, -, hj, rfl⟩ := mem_surplusEntries.mp hy'
    simp only [hasSurplus, decide_eq_true_eq] at hj
    have hpid : (s.processes j).pid = x.pid := hyx
    have hle := hvict j hj.1
    rw [hpid, amount_of_mem (hnd' hnd).1 hx] at hle
    exact ⟨hpid ▸ hj.1, j, hpid, hx, hy, hle⟩
  obtain ⟨s1, out, he, g1, ht⟩ := takeFromVictims_spec (c := c) g hr (hnd' hnd).1 fun x hx => by
    obtain ⟨hx0, j, hj, -, -, hle⟩ := hmem x hx
    exact ⟨(pop_pos hpop).1 x hx, hx0, j, hj, hle.trans (Nat.sub_le _ _)⟩
  rw [htot] at g1
  have hi1 : (s1.processes i).pid ≠ 0 := by rw [ht.frame.pid]; exact hi
  have hadd := g1.add_fits hi1
  refine ⟨s1.addNcpus i n, out, ?_, addNcpus_good g1 hi1, ht.idle.trans hidle, ?_⟩
  · unfold reclaimFromShmem
    rw [ensure_of (by omega), ensure_of hidle, ensure_of hn]
    simp only [Option.bind_eq_bind, Option.bind_some, hpop, hzero, if_true, he]
    rfl
  · have hcur : ∀ j, j ≠ i → ((s1.addNcpus i n).processes j).currentNcpus =
        (s.processes j).currentNcpus - amount r.requests (s.processes j).pid := fun j hj => by
      rw [addNcpus_eq, setNcpus_currentNcpus, if_neg hj, ht.currentNcpus]
    have hcuri : ((s1.addNcpus i n).processes i).currentNcpus = (s.processes i).currentNcpus + n := by
      rw [addNcpus_eq, setNcpus_currentNcpus, if_pos rfl, hadd, ht.currentNcpus, hown, Nat.sub_zero]
    refine ⟨ht.frame.trans (setNcpus_frame _ _ _), hcuri, fun j hj => ?_, fun j hj hlt => ?_, fun hp => ?_,
      fun hfits j hj => ?_⟩
    · rw [hcur j hj]; exact Nat.sub_le _ _
    · rw [hcur j hj] at hlt ⊢
      have hp : (s.processes j).pid ≠ 0 := fun h0 => by simp [g.empty j h0] at hlt
      have := hvict j hp
      omega
    · refine (ht.queued _ hp).resolve_right fun hrq => ?_
      obtain ⟨x, hx, hxi⟩ := mem_map.mp hrq
      have := amount_of_mem (hnd' hnd).1 hx
      rw [hxi, hown] at this
      have := (pop_pos hpop).1 x hx
      omega
    · have hrq := ht.requests (fun x hx => by
        obtain ⟨-, j, hj, -, hmem, hle⟩ := hmem x hx
        have := hfits _ hmem
        simp only [surplusEntry] at this hle
        rw [← hj]
        omega) (s.processes j).pid
      show amount s1.requests _ = _
      rw [hrq]
      by_cases hji : j = i
      · subst hji
        rw [hown, hcuri]
        omega
      · rw [hcur j hji]
        have := hvict j hj
        omega

/-- What borrowing does: slot `i` gets what there is, up to `k`. -/
structure Borrowed (i k : ℕ) (s : Shdata) (r : Shdata × ℕ) : Prop where
  frame : Frame s r.1
  got : r.2 = min s.idleCpus k
  idle : r.1.idleCpus = s.idleCpus - r.2
  requests : r.1.requests = s.requests
  currentNcpus : ∀ j, (r.1.processes j).currentNcpus =
    if j = i then (s.processes i).currentNcpus + r.2 else (s.processes j).currentNcpus

theorem borrowFirst_spec (g : Good 0 s) (hi : (s.processes i).pid ≠ 0) (k : ℕ) :
    Good 0 (borrowFirst s i k).1 ∧ Borrowed i k s (borrowFirst s i k) := by
  unfold borrowFirst
  dsimp only
  split
  · have g1 := idle_sub_good (n := min s.idleCpus k) g (Nat.min_le_left _ _)
    have hadd := g1.add_fits hi
    have hf := setNcpus_frame { s with idleCpus := s.idleCpus - min s.idleCpus k } i
      (addU32 (s.processes i).currentNcpus (min s.idleCpus k))
    refine ⟨addNcpus_good g1 hi, ⟨hf.head, hf.pid, hf.initialNcpus⟩, rfl, rfl, rfl, fun j => ?_⟩
    rw [addNcpus_eq, setNcpus_currentNcpus, hadd]
  · refine ⟨g, .refl s, by omega, (Nat.sub_zero _).symm, rfl, fun j => ?_⟩
    split
    · rename_i h; rw [h, Nat.add_zero]
    · rfl

theorem Borrowed.surplusQueue {k : ℕ} {r : Shdata × ℕ} (h : Borrowed i k s r)
    (hle : (s.processes i).currentNcpus + r.2 ≤ (s.processes i).initialNcpus) :
    LewiAsync.surplusQueue r.1 = LewiAsync.surplusQueue s := by
  refine surplusQueue_congr h.frame fun j => ?_
  rw [h.currentNcpus]
  split
  · rename_i hj; subst hj; omega
  · rfl

/-- The idle CPUs do not make up for what slot `i` lacks, so some are reclaimed. -/
def Lacks (s : Shdata) (i : ℕ) : Prop :=
  (s.processes i).currentNcpus + s.idleCpus < (s.processes i).initialNcpus

instance (s : Shdata) (i : ℕ) : Decidable (Lacks s i) := inferInstanceAs (Decidable (_ < _))

theorem Borrowed.ncpusToReclaim_le {k : ℕ} {r : Shdata × ℕ} (h : Borrowed i k s r) (m : ℕ) :
    ncpusToReclaim (r.1.processes i) m ≤ (s.processes i).initialNcpus - ((s.processes i).currentNcpus + r.2) := by
  refine (Nat.min_le_right _ _).trans ?_
  rw [h.currentNcpus, if_pos rfl, h.frame.initialNcpus]
  split <;> omega

theorem reclaimAfterBorrow_spec {k : ℕ} (g : Good 0 s) (hr : (registered s).card < queueLewiReqsCapacity)
    (hm : (registered s).card ≤ maxreqs) (hs : s.idleCpus < k → Lacks s i → Spread (surplusQueue s))
    (hi : (s.processes i).pid ≠ 0) (hn : 0 < n) (h1 : n ≤ k - (borrowFirst s i k).2)
    (h2 : n ≤ (s.processes i).initialNcpus - ((s.processes i).currentNcpus + (borrowFirst s i k).2)) :
    ∃ s' out, reclaimFromShmem E c (borrowFirst s i k).1 i n maxreqs = some (s', .success, out) ∧ Good 0 s' ∧
      Reclaimed i n (borrowFirst s i k).1 s' ∧ (borrowFirst s i k).1.idleCpus = 0 ∧
      addU32 ((borrowFirst s i k).1.processes i).currentNcpus n ≤
        ((borrowFirst s i k).1.processes i).initialNcpus := by
  obtain ⟨g1, hb⟩ := borrowFirst_spec g hi k
  have hgot := hb.got
  have hcuri := hb.currentNcpus i
  rw [if_pos rfl] at hcuri
  have hi1 : ((borrowFirst s i k).1.processes i).pid ≠ 0 := by rw [hb.frame.pid]; exact hi
  have hzero : (borrowFirst s i k).1.idleCpus = 0 := by rw [hb.idle]; omega
  have hle : ((borrowFirst s i k).1.processes i).currentNcpus + n ≤
      ((borrowFirst s i k).1.processes i).initialNcpus := by rw [hcuri, hb.frame.initialNcpus]; omega
  have hfit : addU32 ((borrowFirst s i k).1.processes i).currentNcpus n =
      ((borrowFirst s i k).1.processes i).currentNcpus + n := by
    have := g1.initial_le hi1
    have := g1.fits
    exact addU32_of_lt (by omega)
  have hm1 : (registered (borrowFirst s i k).1).card ≤ maxreqs := by rw [hb.frame.registered]; exact hm
  obtain ⟨s', out, he, g', -, hrec⟩ := reclaimFromShmem_spec (E := E) (c := c) g1
    (by rw [hb.frame.registered]; exact hr) hm1
    (by rw [hb.surplusQueue (by omega)]; exact hs (by omega) (by unfold Lacks; omega)) hzero hi1 hn hle
  exact ⟨s', out, he, g', hrec, hzero, hfit ▸ hle⟩

theorem borrowAndReclaim_spec {k : ℕ} (g : Good 0 s) (hr : (registered s).card < queueLewiReqsCapacity)
    (hm : (registered s).card ≤ maxreqs) (hs : s.idleCpus < k → Lacks s i → Spread (surplusQueue s))
    (hi : (s.processes i).pid ≠ 0) (hle : (s.processes i).currentNcpus + k ≤ (s.processes i).initialNcpus) :
    ∃ s' e out, borrowAndReclaim E c s i k maxreqs = some (s', e, out) ∧ e ≠ .errReqst ∧ Good 0 s' ∧
      Reclaimed i k s s' := by
  obtain ⟨g1, hb⟩ := borrowFirst_spec g hi k
  have hcur := hb.currentNcpus
  have hgot := hb.got
  have hcuri := hcur i
  rw [if_pos rfl] at hcuri
  unfold borrowAndReclaim reclaimLater
  dsimp only
  split
  · rename_i hpos
    have hf := hb.frame
    obtain ⟨s', out, he, g', hrec, -⟩ := reclaimAfterBorrow_spec (E := E) (c := c) (k := k) g hr hm hs hi hpos le_rfl
      (by omega)
    have hne : ∀ j, j ≠ i → ((borrowFirst s i k).1.processes j).currentNcpus = (s.processes j).currentNcpus :=
      fun j hj => by rw [hcur, if_neg hj]
    refine ⟨s', .success, out, he, by decide, g', hf.trans hrec.frame, ?_, fun j hj => ?_, fun j hj hlt => ?_,
      fun hp => ?_, fun hfits j hj => ?_⟩
    · rw [hrec.own, hcuri]; omega
    · exact (hrec.loses j hj).trans (hne j hj).le
    · rw [← hf.initialNcpus]
      exact hrec.keeps j hj (by rwa [hne j hj])
    · have := hrec.queued
      rw [hf.pid, hb.requests] at this
      exact this hp
    · have hrq := hrec.requests (by unfold QueueFits; rw [hb.surplusQueue (by omega), hb.requests]; exact hfits) j
        (by rwa [hf.pid])
      rw [hf.pid, hb.requests] at hrq
      rw [hrq]
      by_cases hji : j = i
      · subst hji
        have := hrec.own
        omega
      · rw [hne j hji]
  · refine ⟨_, _, _, rfl, ?_, g1, hb.frame, ?_, fun j hj => ?_, fun j hj hlt => ?_, fun hp => hb.requests ▸ hp,
      fun _ j hj => ?_⟩
    · split <;> decide
    · rw [hcuri]; omega
    · rw [hcur, if_neg hj]
    · rw [hcur, if_neg hj] at hlt; omega
    · rw [hb.requests]
      by_cases hji : j = i
      · subst hji; omega
      · rw [hcur, if_neg hji]; omega

theorem attendPrevRequested_spec {k : ℕ} (g : Good 0 s) (hr : (registered s).card < queueLewiReqsCapacity)
    (hi : (s.processes i).pid ≠ 0) : ∃ s', attendPrevRequested s i (s.processes i).pid k = s' ∧ Good 0 s' ∧
      Frame s s' ∧ (s.processes i).currentNcpus ≤ (s'.processes i).currentNcpus ∧
      (∀ j, j ≠ i → (s'.processes j).currentNcpus = (s.processes j).currentNcpus) ∧
      ∀ j, j ≠ i → (s.processes j).pid ≠ 0 →
        amount s'.requests (s.processes j).pid = amount s.requests (s.processes j).pid := by
  obtain ⟨g1, hb⟩ := borrowFirst_spec g hi k
  have hcur := hb.currentNcpus
  have hi1 : ((borrowFirst s i k).1.processes i).pid ≠ 0 := by rw [hb.frame.pid]; exact hi
  refine ⟨_, rfl, ?_⟩
  unfold attendPrevRequested
  dsimp only
  split
  · rename_i hpos
    have hr1 : (registered (borrowFirst s i k).1).card < queueLewiReqsCapacity := by
      rw [hb.frame.registered]; exact hr
    have g2 := push_good g1 hr1 hi1 hpos
    rw [hb.frame.pid] at g2
    refine ⟨g2, hb.frame.requests _, ?_, fun j hj => ?_, fun j hj hj0 => ?_⟩
    · dsimp only; rw [hcur, if_pos rfl]; exact Nat.le_add_right _ _
    · dsimp only; rw [hcur, if_neg hj]
    · have hne : (s.processes i).pid ≠ (s.processes j).pid := fun e => hj (g.distinct i j hi e).symm
      rw [push_amount_other hi hpos hne.symm, hb.requests]
  · refine ⟨g1, hb.frame, ?_, fun j hj => ?_, fun j hj hj0 => by rw [hb.requests]⟩
    · rw [hcur, if_pos rfl]; exact Nat.le_add_right _ _
    · rw [hcur, if_neg hj]

end Reclaim

end Dlb.LewiAsync

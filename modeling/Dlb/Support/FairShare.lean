import Dlb.Support.QueuesSpec

/-!
# Popping CPUs from the queue of requests is a max-min fair split

`queue_lewi_reqs_pop_ncpus` walks the requests from the smallest to the largest and offers each the floor of an even
share of what is left.

* the offer never shrinks along the walk (`popLoop_offer`);
* where all the requests still to come reach a level that suffices for the CPUs left, nobody is given more than that
  level (`popLoop_level`);
* so a request that is cut is cut to within one CPU of every grant (`popLoop_fair`).
-/

namespace Dlb

open List

section Loop

variable {maxreqs : ℕ} {queue rest : List LewiRequest} {request : LewiRequest} {ncpus j : ℕ}

theorem popLoop_amount (request : LewiRequest) (rest : List LewiRequest) (ncpus j : ℕ)
    (hm : j + (rest.length + 1) ≤ maxreqs) : ∃ j', j' + rest.length ≤ maxreqs ∧ ∀ pid,
      amount (popLoop maxreqs (request :: rest) ncpus j).requests pid =
        (if request.pid = pid then min (ncpus / (rest.length + 1)) request.howmany else 0) +
          amount (popLoop maxreqs rest (ncpus - min (ncpus / (rest.length + 1)) request.howmany) j').requests pid := by
  rw [popLoop_cons]
  rcases Nat.eq_zero_or_pos ncpus with rfl | hpos
  · -- no CPU is left: the loop stops here, and would stop at the next entry
    refine ⟨j, by omega, fun pid => ?_⟩
    have hstop : (popLoop maxreqs rest 0 j).requests = [] := by
      cases rest with
      | nil => rfl
      | cons r rest => rw [popLoop_cons, if_neg (by omega)]
    simp [hstop]
  · rw [if_pos ⟨hpos, by omega⟩]
    split
    · exact ⟨j + 1, by omega, fun pid => by simp only [amount, held_cons]⟩
    · rename_i hzero
      refine ⟨j, by omega, fun pid => ?_⟩
      have hzero : min (ncpus / (rest.length + 1)) request.howmany = 0 := Nat.eq_zero_of_not_pos hzero
      simp [hzero]

theorem popLoop_absent {pid : Pid} (h : pid ∉ pids queue) : amount (popLoop maxreqs queue ncpus j).requests pid = 0 :=
  amount_eq_zero fun hmem => h ((popLoop_pids queue ncpus j).2.subset hmem)

theorem share_le_next {n k d : ℕ} (hk : 0 < k) : n / (k + 1) ≤ (n - min (n / (k + 1)) d) / k := by
  rw [Nat.le_div_iff_mul_le hk]
  have hmul : n / (k + 1) * (k + 1) ≤ n := Nat.div_mul_le_self n (k + 1)
  have hsplit : n / (k + 1) * (k + 1) = n / (k + 1) * k + n / (k + 1) := Nat.mul_succ _ _
  have hmin : min (n / (k + 1)) d ≤ n / (k + 1) := Nat.min_le_left _ _
  omega

theorem popLoop_offer (queue : List LewiRequest) (ncpus j : ℕ) (hm : j + queue.length ≤ maxreqs)
    (hn : (pids queue).Nodup) {x : LewiRequest} (hx : x ∈ queue)
    (hcut : amount (popLoop maxreqs queue ncpus j).requests x.pid < x.howmany) :
    ncpus / queue.length ≤ amount (popLoop maxreqs queue ncpus j).requests x.pid := by
  induction queue generalizing ncpus j with
  | nil => cases hx
  | cons r rest ih =>
    rw [pids_cons, nodup_cons] at hn
    rw [length_cons] at hm ⊢
    obtain ⟨j', hm', heq⟩ := popLoop_amount r rest ncpus j hm
    rw [heq] at hcut ⊢
    rcases mem_cons.mp hx with rfl | hx
    · rw [if_pos rfl] at hcut ⊢
      omega
    · have hne : r.pid ≠ x.pid := fun e => hn.1 (e ▸ mem_pids hx)
      rw [if_neg hne, Nat.zero_add] at hcut ⊢
      exact (share_le_next (length_pos_of_mem hx)).trans (ih _ j' hm' hn.2 hx hcut)

theorem popLoop_level (queue : List LewiRequest) (ncpus j c : ℕ) (hm : j + queue.length ≤ maxreqs)
    (hn : (pids queue).Nodup) (hc : ∀ x ∈ queue, c ≤ x.howmany) (hsuff : ncpus ≤ c * queue.length) (pid : Pid) :
    amount (popLoop maxreqs queue ncpus j).requests pid ≤ c := by
  induction queue generalizing ncpus j with
  | nil => simp [popLoop]
  | cons r rest ih =>
    rw [pids_cons, nodup_cons] at hn
    obtain ⟨j', hm', heq⟩ := popLoop_amount r rest ncpus j hm
    have hshare : ncpus / (rest.length + 1) ≤ c := Nat.div_le_of_le_mul (by rw [Nat.mul_comm]; exact hsuff)
    have hmin : min (ncpus / (rest.length + 1)) r.howmany = ncpus / (rest.length + 1) :=
      Nat.min_eq_left (hshare.trans (hc r mem_cons_self))
    rw [heq, hmin]
    by_cases hpid : r.pid = pid
    · rw [if_pos hpid, popLoop_absent (hpid ▸ hn.1)]
      exact hshare
    · rw [if_neg hpid, Nat.zero_add]
      exact ih _ j' hm' hn.2 (fun x hx => hc x (mem_cons_of_mem _ hx)) (sub_share_le hsuff)

theorem popLoop_fair (queue : List LewiRequest) (ncpus j : ℕ) (hm : j + queue.length ≤ maxreqs)
    (hn : (pids queue).Nodup) (hs : queue.Pairwise fun a b => a.howmany ≤ b.howmany) {x : LewiRequest} (hx : x ∈ queue)
    (hcut : amount (popLoop maxreqs queue ncpus j).requests x.pid < x.howmany) (pid : Pid) :
    amount (popLoop maxreqs queue ncpus j).requests pid ≤
      amount (popLoop maxreqs queue ncpus j).requests x.pid + 1 := by
  induction queue generalizing ncpus j with
  | nil => cases hx
  | cons r rest ih =>
    obtain ⟨hr, hrest⟩ := pairwise_cons.mp hs
    rw [pids_cons, nodup_cons] at hn
    obtain ⟨j', hm', heq⟩ := popLoop_amount r rest ncpus j hm
    rw [heq, heq]
    rw [heq] at hcut
    rcases mem_cons.mp hx with rfl | hx
    · -- the first entry is cut to its share, and one more CPU for each suffices for the others
      have hzero : amount (popLoop maxreqs rest (ncpus - min (ncpus / (rest.length + 1)) x.howmany) j').requests
          x.pid = 0 := popLoop_absent hn.1
      rw [if_pos rfl, hzero, Nat.add_zero] at hcut ⊢
      have hmin : min (ncpus / (rest.length + 1)) x.howmany = ncpus / (rest.length + 1) := by omega
      rw [hmin] at hcut ⊢
      have hsuff : ncpus ≤ (ncpus / (rest.length + 1) + 1) * (rest.length + 1) :=
        (Nat.lt_mul_div_succ ncpus rest.length.succ_pos).le.trans (Nat.mul_comm _ _).le
      have hothers : amount (popLoop maxreqs rest (ncpus - ncpus / (rest.length + 1)) j').requests pid ≤
          ncpus / (rest.length + 1) + 1 := popLoop_level rest _ j' _ hm' hn.2 (fun y hy => hcut.trans_le (hr y hy)) (sub_share_le hsuff) pid
      by_cases hpid : x.pid = pid
      · rw [if_pos hpid, popLoop_absent (hpid ▸ hn.1)]
        omega
      · rw [if_neg hpid, Nat.zero_add]
        exact hothers
    · have hne : r.pid ≠ x.pid := fun e => hn.1 (e ▸ mem_pids hx)
      rw [if_neg hne, Nat.zero_add] at hcut ⊢
      by_cases hpid : r.pid = pid
      · -- the first entry was offered no more than the entry that is cut
        rw [if_pos hpid, popLoop_absent (hpid ▸ hn.1)]
        have hoffer := popLoop_offer rest _ j' hm' hn.2 hx hcut
        have hnext : ncpus / (rest.length + 1) ≤ _ :=
          (share_le_next (d := r.howmany) (length_pos_of_mem hx)).trans hoffer
        have hmin : min (ncpus / (rest.length + 1)) r.howmany ≤ ncpus / (rest.length + 1) := Nat.min_le_left _ _
        omega
      · rw [if_neg hpid, Nat.zero_add]
        exact ih _ j' hm' hn.2 hrest hx hcut

end Loop

section Pop

variable {Q : Lib.Qsort} {debug : Bool} {queue : List LewiRequest} {ncpus maxreqs : ℕ} {r : Popped}

theorem pop_fair (h : queueLewiReqsPopNcpus Q debug queue ncpus maxreqs = some r) (hs : Spread queue)
    (hn : (pids queue).Nodup) (hm : queue.length ≤ maxreqs) {x : LewiRequest} (hx : x ∈ queue)
    (hcut : amount r.requests x.pid < x.howmany) (pid : Pid) :
    amount r.requests pid ≤ amount r.requests x.pid + 1 := by
  rcases pop_cases h with ⟨rfl, -⟩ | ⟨-, sorted, rfl, rfl⟩
  · cases hx
  · have hperm := (reverse_perm _).trans (Q.perm sortQueueLewiReqs queue)
    have hlen := hperm.length_eq
    have hasc : (Q.sort sortQueueLewiReqs queue).reverse.Pairwise fun a b => a.howmany ≤ b.howmany :=
      pairwise_reverse.mpr (sort_descending hs)
    exact popLoop_fair _ ncpus 0 (by omega) ((hperm.map _).nodup_iff.mpr hn) hasc (hperm.mem_iff.mpr hx) hcut pid

theorem pop_left (h : queueLewiReqsPopNcpus Q debug queue ncpus maxreqs = some r) (hn : (pids queue).Nodup)
    (x : LewiRequest) :
    x ∈ r.queue ↔ 0 < x.howmany ∧ x.howmany = amount queue x.pid - amount r.requests x.pid := by
  have hheld : amount r.queue x.pid + amount r.requests x.pid = amount queue x.pid := pop_held h (· = x.pid)
  have hnodup := (pop_pids h).2.2 hn
  constructor
  · intro hx
    have hamount := amount_of_mem hnodup.2 hx
    exact ⟨(pop_pos h).2 x hx, by omega⟩
  · rintro ⟨hpos, heq⟩
    have hleft : 0 < amount r.queue x.pid := by omega
    have hmem : x.pid ∈ pids r.queue := by
      by_contra hnot
      rw [amount_eq_zero hnot] at hleft
      omega
    obtain ⟨y, hy, hpid⟩ := mem_map.mp hmem
    have hamount := amount_of_mem hnodup.2 hy
    rw [hpid] at hamount
    have hhowmany : y.howmany = x.howmany := by omega
    have hxy : y = x := (LewiRequest.mk.injEq y.pid y.howmany x.pid x.howmany).mpr ⟨hpid, hhowmany⟩
    exact hxy ▸ hy

/-- **Popping CPUs is a max-min fair split** of the CPUs over the requests. -/
theorem pop_max_min_fair (Q : Lib.Qsort) (debug : Bool) (queue : List LewiRequest) (ncpus maxreqs : ℕ)
    (hn : (pids queue).Nodup) (hpos : ∀ x ∈ queue, 0 < x.howmany ∧ x.howmany < 2 ^ 31)
    (hm : queue.length ≤ maxreqs) : ∃ r, queueLewiReqsPopNcpus Q debug queue ncpus maxreqs = some r ∧
      total r.requests + r.ncpus = ncpus ∧
      (r.ncpus : ℤ) = max 0 ((ncpus : ℤ) - total queue) ∧
      (pids r.requests).Nodup ∧
      (∀ x ∈ r.requests, 0 < x.howmany ∧ x.howmany ≤ amount queue x.pid) ∧
      (pids r.queue).Nodup ∧
      (∀ x, x ∈ r.queue ↔ 0 < x.howmany ∧ x.howmany = amount queue x.pid - amount r.requests x.pid) ∧
      ∀ p ∈ pids queue, amount r.requests p < amount queue p →
        ∀ q ∈ pids queue, amount r.requests q ≤ amount r.requests p + 1 := by
  obtain ⟨r, h⟩ : ∃ r, queueLewiReqsPopNcpus Q debug queue ncpus maxreqs = some r :=
    pop_returns (Or.inr fun x hx => (hpos x hx).1)
  have hs : Spread queue := fun a ha b _ => Nat.lt_of_lt_of_le (hpos a ha).2 (Nat.le_add_left _ _)
  have htotal := pop_total h
  have hnodup := (pop_pids h).2.2 hn
  refine ⟨r, h, htotal, ?_, hnodup.1, fun x hx => ⟨(pop_pos h).1 x hx, ?_⟩, hnodup.2, pop_left h hn,
    fun p hp hcut q _ => ?_⟩
  · have hheld : total r.queue + total r.requests = total queue := pop_held h fun _ => True
    rcases pop_served h hs hm with hnone | hnil
    · omega
    · rw [hnil] at hheld
      simp only [total, held_nil] at hheld htotal ⊢
      omega
  · have hheld : amount r.queue x.pid + amount r.requests x.pid = amount queue x.pid := pop_held h (· = x.pid)
    have hamount := amount_of_mem hnodup.1 hx
    omega
  · obtain ⟨x, hx, rfl⟩ := mem_map.mp hp
    rw [amount_of_mem hn hx] at hcut
    exact pop_fair h hs hn hm hx hcut q

/-- Seven CPUs for requests of five, two and four. -/
theorem pop_max_min_fair_seven : ∃ r,
    queueLewiReqsPopNcpus Lib.insertionQsort true [⟨1, 5⟩, ⟨2, 2⟩, ⟨3, 4⟩] 7 8 = some r ∧ total r.requests + r.ncpus = 7 :=
  let ⟨r, h, ht, _⟩ := pop_max_min_fair Lib.insertionQsort true [⟨1, 5⟩, ⟨2, 2⟩, ⟨3, 4⟩] 7 8 (by decide) (by decide)
    (by decide)
  ⟨r, h, ht⟩

end Pop

end Dlb

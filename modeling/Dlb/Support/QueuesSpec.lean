import Mathlib.Tactic.Ring
import Dlb.Support.Queues

/-!
# The queue of CPU requests: what each operation does

A queue is read through `amount queue pid`, the CPUs it holds for `pid`, and `pids queue`.

* removing and pushing change the amount of one process (`push_amount`) and keep the process ids
  distinct;
* popping splits the CPUs: what is handed out, and what is left of the CPUs, add up (`pop_total`); each entry loses
  what its process is given (`pop_held`);
* popping from a queue in ascending order leaves no CPU over while a request is open (`pop_served`).
-/

namespace Dlb

open List

/-- The CPUs that a list of requests holds for the processes in `p`. -/
def held (p : Pid → Prop) [DecidablePred p] (queue : List LewiRequest) : ℕ :=
  ((queue.filter fun r => p r.pid).map (·.howmany)).sum

/-- The CPUs that a list of requests holds for `pid`. -/
abbrev amount (queue : List LewiRequest) (pid : Pid) : ℕ := held (· = pid) queue

abbrev total (queue : List LewiRequest) : ℕ := held (fun _ => True) queue

def pids (queue : List LewiRequest) : List Pid := queue.map (·.pid)

section Held

variable {p : Pid → Prop} [DecidablePred p]

@[simp] theorem held_nil : held p [] = 0 := rfl

@[simp] theorem held_cons (r : LewiRequest) (queue : List LewiRequest) :
    held p (r :: queue) = (if p r.pid then r.howmany else 0) + held p queue := by
  by_cases h : p r.pid <;> simp [held, h]

@[simp] theorem held_append (l1 l2 : List LewiRequest) : held p (l1 ++ l2) = held p l1 + held p l2 := by simp [held]

theorem held_perm {l1 l2 : List LewiRequest} (h : l1.Perm l2) : held p l1 = held p l2 :=
  List.Perm.sum_nat ((h.filter _).map _)

theorem held_pack (queue : List LewiRequest) : held p (queueLewiReqsPack queue) = held p queue := by
  induction queue with
  | nil => rfl
  | cons x queue ih =>
    unfold queueLewiReqsPack at ih ⊢
    rw [filter_cons]
    split
    · simp [ih]
    · rename_i hx
      have hx : x.howmany = 0 := by simpa using hx
      simp [ih, hx]

end Held

@[simp] theorem pids_cons (r : LewiRequest) (queue : List LewiRequest) : pids (r :: queue) = r.pid :: pids queue := rfl

theorem mem_pids {queue : List LewiRequest} {r : LewiRequest} (h : r ∈ queue) : r.pid ∈ pids queue :=
  mem_map_of_mem h

theorem amount_eq_zero {queue : List LewiRequest} {pid : Pid} (h : pid ∉ pids queue) : amount queue pid = 0 := by
  induction queue with
  | nil => rfl
  | cons r queue ih =>
    simp only [pids_cons, mem_cons, not_or] at h
    simp [ih h.2, Ne.symm h.1]

theorem amount_of_mem {queue : List LewiRequest} (hn : (pids queue).Nodup) {r : LewiRequest} (hr : r ∈ queue) :
    amount queue r.pid = r.howmany := by
  induction queue with
  | nil => cases hr
  | cons a queue ih =>
    simp only [pids_cons, nodup_cons] at hn
    rcases mem_cons.mp hr with rfl | hr'
    · simp [amount_eq_zero hn.1]
    · have hne : a.pid ≠ r.pid := fun e => hn.1 (e ▸ mem_pids hr')
      simp [hne, ih hn.2 hr']

theorem get_eq_amount {queue : List LewiRequest} (hn : (pids queue).Nodup) {pid : Pid} (hp : pid ≠ 0) :
    queueLewiReqsGet queue pid = amount queue pid := by
  unfold queueLewiReqsGet
  rw [if_neg hp]
  cases h : queue.find? (·.pid = pid) with
  | none =>
    have hnot : pid ∉ pids queue := by
      intro hm
      obtain ⟨r, hr, rfl⟩ := mem_map.mp hm
      simpa using find?_eq_none.mp h r hr
    simp [amount_eq_zero hnot]
  | some r =>
    have hr := mem_of_find?_eq_some h
    have hpid : r.pid = pid := by simpa using find?_some h
    subst hpid
    simp [amount_of_mem hn hr]

theorem split_of_findIdx {queue : List LewiRequest} {pid : Pid} {i : ℕ} (h : queue.findIdx? (·.pid = pid) = some i) :
    ∃ as r bs, queue = as ++ r :: bs ∧ as.length = i ∧ r.pid = pid := by
  obtain ⟨hlt, hpid, -⟩ := findIdx?_eq_some_iff_getElem.mp h
  refine ⟨queue.take i, queue[i], queue.drop (i + 1), ?_, by simp; omega, by simpa using hpid⟩
  rw [getElem_cons_drop, take_append_drop]

theorem findIdx_none_iff {queue : List LewiRequest} {pid : Pid} :
    queue.findIdx? (·.pid = pid) = none ↔ pid ∉ pids queue := by
  rw [findIdx?_eq_none_iff]
  constructor
  · intro h hm
    obtain ⟨r, hr, rfl⟩ := mem_map.mp hm
    simpa using h r hr
  · intro h r hr
    simpa using fun e : r.pid = pid => h (e ▸ mem_pids hr)

/-! ## Remove -/

theorem remove_absent {queue : List LewiRequest} {pid : Pid} (h : pid ∉ pids queue) :
    queueLewiReqsRemove queue pid = (0, queue) := by
  unfold queueLewiReqsRemove
  split
  · rfl
  · simp [findIdx_none_iff.mpr h]

theorem swap_last_perm {α : Type} (as bs : List α) (x d : α) :
    (x :: (if as.length + 1 < (as ++ x :: bs).length then
      ((as ++ x :: bs).set as.length ((as ++ x :: bs).getD ((as ++ x :: bs).length - 1) d)).dropLast
      else (as ++ x :: bs).dropLast)).Perm (as ++ x :: bs) := by
  rcases eq_nil_or_concat bs with rfl | ⟨bs, l, rfl⟩
  · simpa using (@perm_append_comm _ [x] as)
  · have hlast : (as ++ x :: (bs ++ [l])).getD ((as ++ x :: (bs ++ [l])).length - 1) d = l := by
      simp [getD_eq_getElem?_getD]
    have hset : ((as ++ x :: (bs ++ [l])).set as.length l).dropLast = as ++ l :: bs := by
      rw [set_append_right _ _ (le_refl _), Nat.sub_self, set_cons_zero, ← cons_append,
        ← append_assoc, dropLast_concat]
    simp only [concat_eq_append] at *
    rw [if_pos (by simp), hlast, hset]
    have h1 : (as ++ l :: bs).Perm (as ++ (bs ++ [l])) :=
      List.Perm.append_left as (@perm_append_comm _ [l] bs)
    exact (h1.cons x).trans perm_middle.symm

theorem remove_perm {queue : List LewiRequest} {pid : Pid} (hp : pid ≠ 0) (h : pid ∈ pids queue) :
    ∃ r, r.pid = pid ∧ (queueLewiReqsRemove queue pid).1 = r.howmany ∧
      (r :: (queueLewiReqsRemove queue pid).2).Perm queue := by
  unfold queueLewiReqsRemove
  rw [if_neg hp]
  cases hi : queue.findIdx? (·.pid = pid) with
  | none => exact absurd h (findIdx_none_iff.mp hi)
  | some i =>
    obtain ⟨as, r, bs, rfl, rfl, hr⟩ := split_of_findIdx hi
    have key := swap_last_perm as bs r (⟨0, 0⟩ : LewiRequest)
    refine ⟨r, hr, ?_, ?_⟩
    · dsimp only
      split <;> simp
    · dsimp only
      split
      · rename_i hlast; simpa only [hlast, if_true] using key
      · rename_i hlast; simpa only [hlast, if_false] using key

theorem remove_length_le (queue : List LewiRequest) (pid : Pid) :
    (queueLewiReqsRemove queue pid).2.length ≤ queue.length := by
  by_cases hp : pid = 0
  · simp [queueLewiReqsRemove, hp]
  by_cases h : pid ∈ pids queue
  · obtain ⟨r, -, -, hperm⟩ := remove_perm hp h
    have := hperm.length_eq
    rw [length_cons] at this
    omega
  · rw [remove_absent h]

theorem remove_spec {queue : List LewiRequest} (hn : (pids queue).Nodup) {pid : Pid} (hp : pid ≠ 0) :
    (queueLewiReqsRemove queue pid).1 = amount queue pid ∧
    (pids (queueLewiReqsRemove queue pid).2).Nodup ∧
    (∀ r, r ∈ (queueLewiReqsRemove queue pid).2 ↔ r ∈ queue ∧ r.pid ≠ pid) := by
  by_cases h : pid ∈ pids queue
  · obtain ⟨r, hr, h1, hperm⟩ := remove_perm hp h
    have hn' : (pids (r :: (queueLewiReqsRemove queue pid).2)).Nodup := (hperm.map _).nodup_iff.mpr hn
    rw [pids_cons, nodup_cons] at hn'
    obtain ⟨hnot, hnd⟩ := hn'
    refine ⟨?_, hnd, fun x => ?_⟩
    · have := amount_of_mem hn (hperm.subset mem_cons_self)
      rw [h1, ← this, hr]
    · rw [← hperm.mem_iff, mem_cons]
      constructor
      · exact fun hx => ⟨Or.inr hx, fun e => hnot (by rw [show r.pid = x.pid from hr.trans e.symm]; exact mem_pids hx)⟩
      · rintro ⟨rfl | hx, hne⟩
        · exact absurd hr hne
        · exact hx
  · rw [remove_absent h]
    exact ⟨(amount_eq_zero h).symm, hn, fun x => ⟨fun hx => ⟨hx, fun e => h (e ▸ mem_pids hx)⟩, And.left⟩⟩

/-! ## Push -/

theorem push_present {queue : List LewiRequest} {pid : Pid} {n : ℕ} (hp : pid ≠ 0) (hn : 0 < n)
    (h : pid ∈ pids queue) : ∃ as r bs, queue = as ++ r :: bs ∧ r.pid = pid ∧
      queueLewiReqsPush queue pid n = (.success, as ++ { r with howmany := addU32 r.howmany n } :: bs) := by
  unfold queueLewiReqsPush
  rw [if_neg hp, if_neg (by omega)]
  cases hi : queue.findIdx? (·.pid = pid) with
  | none => exact absurd h (findIdx_none_iff.mp hi)
  | some i =>
    obtain ⟨as, r, bs, rfl, rfl, hr⟩ := split_of_findIdx hi
    refine ⟨as, r, bs, rfl, hr, ?_⟩
    simp [modify_eq_take_drop]

theorem push_absent {queue : List LewiRequest} {pid : Pid} {n : ℕ} (hp : pid ≠ 0) (hn : 0 < n)
    (h : pid ∉ pids queue) (hroom : queue.length < queueLewiReqsCapacity - 1) :
    queueLewiReqsPush queue pid n = (.success, queue ++ [⟨pid, n⟩]) := by
  unfold queueLewiReqsPush
  rw [if_neg hp, if_neg (by omega), findIdx_none_iff.mpr h]
  exact if_neg (by omega)

section Push

variable {queue : List LewiRequest} {pid : Pid} {n : ℕ}

theorem push_spec (hd : (pids queue).Nodup) (hp : pid ≠ 0) (hn : 0 < n)
    (hroom : pid ∈ pids queue ∨ queue.length < queueLewiReqsCapacity - 1) :
    (queueLewiReqsPush queue pid n).1 = .success ∧ (pids (queueLewiReqsPush queue pid n).2).Nodup ∧
    ∀ q, q ∈ pids (queueLewiReqsPush queue pid n).2 ↔ q ∈ pids queue ∨ q = pid := by
  by_cases h : pid ∈ pids queue
  · obtain ⟨as, r, bs, rfl, hr, he⟩ := push_present hp hn h
    have hpids : pids (as ++ { r with howmany := addU32 r.howmany n } :: bs) = pids (as ++ r :: bs) := by
      simp [pids]
    rw [he, hpids]
    exact ⟨rfl, hd, fun q => ⟨Or.inl, fun hq => hq.elim id (fun e => e ▸ h)⟩⟩
  · rw [push_absent hp hn h (hroom.resolve_left h)]
    refine ⟨rfl, ?_, fun q => by simp [pids]⟩
    have : pids (queue ++ [⟨pid, n⟩]) = pids queue ++ [pid] := by simp [pids]
    rw [this, nodup_append]
    exact ⟨hd, by simp, fun a ha b hb => by simp only [mem_singleton] at hb; rintro rfl; exact h (hb ▸ ha)⟩

theorem push_amount (hd : (pids queue).Nodup) (hp : pid ≠ 0) (hn : 0 < n)
    (hroom : pid ∈ pids queue ∨ queue.length < queueLewiReqsCapacity - 1) (hfit : amount queue pid + n < 2 ^ 32)
    (q : Pid) : amount (queueLewiReqsPush queue pid n).2 q = amount queue q + if q = pid then n else 0 := by
  by_cases h : pid ∈ pids queue
  · obtain ⟨as, r, bs, rfl, hr, he⟩ := push_present hp hn h
    have hamt := amount_of_mem hd (r := r) (by simp)
    rw [hr] at hamt
    rw [he]
    simp only [held_append, held_cons, addU32_of_lt (hamt ▸ hfit), hr]
    by_cases hq : q = pid
    · subst hq; simp; omega
    · simp [hq, Ne.symm hq]
  · rw [push_absent hp hn h (hroom.resolve_left h)]
    by_cases hq : q = pid
    · subst hq; simp
    · simp [hq, Ne.symm hq]

theorem push_amount_other (hp : pid ≠ 0) (hn : 0 < n) {q : Pid} (hq : q ≠ pid) :
    amount (queueLewiReqsPush queue pid n).2 q = amount queue q := by
  by_cases h : pid ∈ pids queue
  · obtain ⟨as, r, bs, rfl, hr, he⟩ := push_present hp hn h
    rw [he]
    simp [amount, hr, Ne.symm hq]
  · unfold queueLewiReqsPush
    rw [if_neg hp, if_neg (by omega), findIdx_none_iff.mpr h]
    dsimp only
    split
    · rfl
    · simp [amount, Ne.symm hq]

end Push

/-! ## Pop: the distribution loop -/

section Pop

variable {maxreqs : ℕ}

theorem popLoop_nil (ncpus j : ℕ) : popLoop maxreqs [] ncpus j = ⟨[], [], ncpus⟩ := rfl

theorem popLoop_cons (request : LewiRequest) (rest : List LewiRequest) (ncpus j : ℕ) :
    popLoop maxreqs (request :: rest) ncpus j =
      if 0 < ncpus ∧ j < maxreqs then
        if 0 < min (ncpus / (rest.length + 1)) request.howmany then
          let g := min (ncpus / (rest.length + 1)) request.howmany
          let r := popLoop maxreqs rest (ncpus - g) (j + 1)
          ⟨{ request with howmany := request.howmany - g } :: r.queue, ⟨request.pid, g⟩ :: r.requests, r.ncpus⟩
        else
          let r := popLoop maxreqs rest ncpus j
          ⟨request :: r.queue, r.requests, r.ncpus⟩
      else ⟨request :: rest, [], ncpus⟩ := rfl

theorem share_le (n k d : ℕ) : min (n / (k + 1)) d ≤ n := (Nat.min_le_left _ _).trans (Nat.div_le_self _ _)

theorem popLoop_total (queue : List LewiRequest) (ncpus j : ℕ) :
    total (popLoop maxreqs queue ncpus j).requests + (popLoop maxreqs queue ncpus j).ncpus = ncpus := by
  induction queue generalizing ncpus j with
  | nil => simp [popLoop_nil]
  | cons r rest ih =>
    rw [popLoop_cons]
    split
    · split
      · have hle := share_le ncpus rest.length r.howmany
        have := ih (ncpus - min (ncpus / (rest.length + 1)) r.howmany) (j + 1)
        simp only [total, held_cons, if_true] at this ⊢
        omega
      · exact ih ncpus j
    · simp

theorem popLoop_held {p : Pid → Prop} [DecidablePred p] (queue : List LewiRequest) (ncpus j : ℕ) :
    held p (popLoop maxreqs queue ncpus j).queue + held p (popLoop maxreqs queue ncpus j).requests =
      held p queue := by
  induction queue generalizing ncpus j with
  | nil => simp [popLoop_nil]
  | cons r rest ih =>
    rw [popLoop_cons]
    split
    · split
      · have hle : min (ncpus / (rest.length + 1)) r.howmany ≤ r.howmany := Nat.min_le_right _ _
        have := ih (ncpus - min (ncpus / (rest.length + 1)) r.howmany) (j + 1)
        simp only [held_cons]
        split <;> omega
      · have := ih ncpus j
        simp only [held_cons]
        omega
    · simp

theorem popLoop_pids (queue : List LewiRequest) (ncpus j : ℕ) :
    pids (popLoop maxreqs queue ncpus j).queue = pids queue ∧
      (pids (popLoop maxreqs queue ncpus j).requests).Sublist (pids queue) := by
  induction queue generalizing ncpus j with
  | nil => simp [popLoop_nil]
  | cons r rest ih =>
    rw [popLoop_cons]
    split
    · split
      · obtain ⟨h1, h2⟩ := ih (ncpus - min (ncpus / (rest.length + 1)) r.howmany) (j + 1)
        simp only [pids_cons, h1]
        exact ⟨trivial, h2.cons_cons _⟩
      · obtain ⟨h1, h2⟩ := ih ncpus j
        simp only [pids_cons, h1]
        exact ⟨trivial, h2.cons _⟩
    · exact ⟨rfl, nil_sublist _⟩

theorem popLoop_pos (queue : List LewiRequest) (ncpus j : ℕ) :
    ∀ r ∈ (popLoop maxreqs queue ncpus j).requests, 0 < r.howmany := by
  induction queue generalizing ncpus j with
  | nil => simp [popLoop_nil]
  | cons r rest ih =>
    rw [popLoop_cons]
    split
    · split
      · rename_i hg
        intro x hx
        rcases mem_cons.mp hx with rfl | hx
        · exact hg
        · exact ih _ _ x hx
      · exact ih ncpus j
    · simp

theorem popLoop_zero (queue : List LewiRequest) (j : ℕ) : (popLoop maxreqs queue 0 j).ncpus = 0 := by
  cases queue with
  | nil => rfl
  | cons r rest => rw [popLoop_cons, if_neg (by omega)]

theorem sub_share_le {n c k : ℕ} (h : n ≤ c * (k + 1)) : n - n / (k + 1) ≤ c * k := by
  have hdm := Nat.div_add_mod n (k + 1)
  have hmod := Nat.mod_lt n (show 0 < k + 1 by omega)
  rcases Nat.lt_or_ge (n / (k + 1)) c with hlt | hge
  · have h1 : (n / (k + 1) + 1) * k ≤ c * k := Nat.mul_le_mul_right k hlt
    have h2 : (k + 1) * (n / (k + 1)) = n / (k + 1) * k + n / (k + 1) := by ring
    have h3 : (n / (k + 1) + 1) * k = n / (k + 1) * k + k := by ring
    omega
  · have : c * (k + 1) = c * k + c := by ring
    omega

theorem popLoop_starved (queue : List LewiRequest) (ncpus j c : ℕ) (hm : j + queue.length ≤ maxreqs)
    (hc : ∀ r ∈ queue, c ≤ r.howmany) (hn : ncpus ≤ c * queue.length) :
    (popLoop maxreqs queue ncpus j).ncpus = 0 := by
  induction queue generalizing ncpus j with
  | nil => simpa [popLoop_nil] using hn
  | cons r rest ih =>
    simp only [length_cons] at hm hn
    have hrest : ∀ x ∈ rest, c ≤ x.howmany := fun x hx => hc x (mem_cons_of_mem _ hx)
    have hshare : ncpus / (rest.length + 1) ≤ c := Nat.div_le_of_le_mul (by rw [Nat.mul_comm]; exact hn)
    have hmin : min (ncpus / (rest.length + 1)) r.howmany = ncpus / (rest.length + 1) :=
      Nat.min_eq_left (hshare.trans (hc r mem_cons_self))
    have hleft := sub_share_le hn
    rw [popLoop_cons, hmin]
    rcases Nat.eq_zero_or_pos ncpus with rfl | hpos
    · simp
    · rw [if_pos ⟨hpos, by omega⟩]
      split
      · exact ih _ (j + 1) (by omega) hrest hleft
      · rename_i hz
        exact ih ncpus j (by omega) hrest (by omega)

theorem popLoop_served (queue : List LewiRequest) (ncpus j : ℕ) (hm : j + queue.length ≤ maxreqs)
    (hs : queue.Pairwise fun a b => a.howmany ≤ b.howmany) :
    (popLoop maxreqs queue ncpus j).ncpus = 0 ∨
      ∀ r ∈ (popLoop maxreqs queue ncpus j).queue, r.howmany = 0 := by
  induction queue generalizing ncpus j with
  | nil => right; simp [popLoop_nil]
  | cons r rest ih =>
    obtain ⟨hr, hrest⟩ := pairwise_cons.mp hs
    simp only [length_cons] at hm
    rcases Nat.eq_zero_or_pos ncpus with rfl | hpos
    · exact Or.inl (popLoop_zero _ _)
    rw [popLoop_cons, if_pos ⟨hpos, by omega⟩]
    rcases Nat.lt_or_ge (ncpus / (rest.length + 1)) r.howmany with hlt | hge
    · -- the share is smaller than this demand, hence than every later one
      rw [Nat.min_eq_left (Nat.le_of_lt hlt)]
      have hc : ∀ x ∈ rest, ncpus / (rest.length + 1) + 1 ≤ x.howmany := fun x hx =>
        (Nat.succ_le_of_lt hlt).trans (hr x hx)
      have hn : ncpus ≤ (ncpus / (rest.length + 1) + 1) * (rest.length + 1) :=
        (Nat.lt_mul_div_succ ncpus rest.length.succ_pos).le.trans (Nat.mul_comm _ _).le
      have hleft := sub_share_le hn
      left
      split
      · exact popLoop_starved rest _ (j + 1) _ (by omega) hc hleft
      · exact popLoop_starved rest ncpus j _ (by omega) hc (by omega)
    · rw [Nat.min_eq_right hge]
      split
      · rcases ih (ncpus - r.howmany) (j + 1) (by omega) hrest with h | h
        · exact Or.inl h
        · right
          intro x hx
          rcases mem_cons.mp hx with rfl | hx
          · simp
          · exact h x hx
      · rcases ih ncpus j (by omega) hrest with h | h
        · exact Or.inl h
        · right
          intro x hx
          rcases mem_cons.mp hx with rfl | hx
          · omega
          · exact h x hx

theorem popLoop_ne_nil (queue : List LewiRequest) (ncpus j : ℕ) (hne : queue ≠ []) (hm : j < maxreqs)
    (hn : 0 < ncpus) (hpos : ∀ r ∈ queue, 0 < r.howmany) : (popLoop maxreqs queue ncpus j).requests ≠ [] := by
  induction queue with
  | nil => exact absurd rfl hne
  | cons r rest ih =>
    rw [popLoop_cons, if_pos ⟨hn, hm⟩]
    split
    · simp
    · rename_i hz
      have hr := hpos r mem_cons_self
      have hrest : rest ≠ [] := by
        rintro rfl
        simp at hz
        omega
      exact ih hrest fun x hx => hpos x (mem_cons_of_mem _ hx)

end Pop

/-! ## Pop: the whole operation -/

section PopNcpus

variable {Q : Lib.Qsort} {debug : Bool} {queue : List LewiRequest} {ncpus maxreqs : ℕ} {r : Popped}

/-- No two requests are `2 ^ 31` or more apart: their difference fits in an `int`. -/
def Spread (queue : List LewiRequest) : Prop := ∀ a ∈ queue, ∀ b ∈ queue, a.howmany < b.howmany + 2 ^ 31

theorem sortQueueLewiReqs_of_spread (hs : Spread queue) {a b : LewiRequest} (ha : a ∈ queue) (hb : b ∈ queue) :
    sortQueueLewiReqs a b = (b.howmany : ℤ) - a.howmany :=
  subToInt_of_lt (hs b hb a ha) (hs a ha b hb)

theorem sort_descending (hs : Spread queue) :
    (Q.sort sortQueueLewiReqs queue).Pairwise fun a b => b.howmany ≤ a.howmany := by
  have hc : Lib.Consistent sortQueueLewiReqs queue := by
    constructor
    · intro a ha b hb
      rw [sortQueueLewiReqs_of_spread hs ha hb, sortQueueLewiReqs_of_spread hs hb ha]
      omega
    · intro a ha b hb c hc
      rw [sortQueueLewiReqs_of_spread hs ha hb, sortQueueLewiReqs_of_spread hs hb hc,
        sortQueueLewiReqs_of_spread hs ha hc]
      omega
  have hperm := Q.perm sortQueueLewiReqs queue
  refine (Q.sorted _ _ hc).imp_of_mem fun {a b} ha hb hab => ?_
  rw [sortQueueLewiReqs_of_spread hs (hperm.subset ha) (hperm.subset hb)] at hab
  omega

theorem pop_cases (h : queueLewiReqsPopNcpus Q debug queue ncpus maxreqs = some r) :
    (queue = [] ∧ r = ⟨[], [], ncpus⟩) ∨
    (queue ≠ [] ∧ ∃ sorted, sorted = Q.sort sortQueueLewiReqs queue ∧
      r = ⟨queueLewiReqsPack (popLoop maxreqs sorted.reverse ncpus 0).queue.reverse,
        (popLoop maxreqs sorted.reverse ncpus 0).requests, (popLoop maxreqs sorted.reverse ncpus 0).ncpus⟩) := by
  unfold queueLewiReqsPopNcpus queueLewiReqsSize at h
  by_cases hq : queue = []
  · subst hq
    left
    exact ⟨rfl, by simpa using h.symm⟩
  · right
    refine ⟨hq, _, rfl, ?_⟩
    simp only [length_eq_zero_iff, hq, if_false] at h
    obtain ⟨-, -, hr⟩ := Option.bind_eq_some_iff.mp h
    exact (Option.some.inj hr).symm

theorem pop_returns (h : debug = false ∨ ∀ x ∈ queue, 0 < x.howmany) :
    ∃ r, queueLewiReqsPopNcpus Q debug queue ncpus maxreqs = some r := by
  unfold queueLewiReqsPopNcpus queueLewiReqsSize
  by_cases hq : queue = []
  · subst hq; exact ⟨_, rfl⟩
  · simp only [length_eq_zero_iff, hq, if_false]
    have hens : ensure debug (0 < ((Q.sort sortQueueLewiReqs queue).getD
        ((Q.sort sortQueueLewiReqs queue).length - 1) ⟨0, 0⟩).howmany) = some () := by
      rcases h with rfl | h
      · exact ensure_release
      · refine ensure_of ?_
        have hperm := Q.perm sortQueueLewiReqs queue
        have hlen : 0 < (Q.sort sortQueueLewiReqs queue).length := by
          rw [hperm.length_eq]; exact length_pos_iff.mpr hq
        rw [getD_eq_getElem?_getD, getElem?_eq_getElem (by omega), Option.getD_some]
        exact h _ (hperm.subset (getElem_mem _))
    exact ⟨_, Option.bind_eq_some_iff.mpr ⟨(), hens, rfl⟩⟩

theorem pop_total (h : queueLewiReqsPopNcpus Q debug queue ncpus maxreqs = some r) :
    total r.requests + r.ncpus = ncpus := by
  rcases pop_cases h with ⟨-, rfl⟩ | ⟨-, sorted, -, rfl⟩
  · simp [total]
  · exact popLoop_total _ _ _

theorem pop_held (h : queueLewiReqsPopNcpus Q debug queue ncpus maxreqs = some r) (p : Pid → Prop) [DecidablePred p] :
    held p r.queue + held p r.requests = held p queue := by
  rcases pop_cases h with ⟨rfl, rfl⟩ | ⟨-, sorted, rfl, rfl⟩
  · simp
  · have hperm := (reverse_perm _).trans (Q.perm sortQueueLewiReqs queue)
    rw [held_pack, held_perm (reverse_perm _), popLoop_held, held_perm hperm]

theorem pop_pids (h : queueLewiReqsPopNcpus Q debug queue ncpus maxreqs = some r) :
    (∀ p ∈ pids r.requests, p ∈ pids queue) ∧ (∀ p ∈ pids r.queue, p ∈ pids queue) ∧
    ((pids queue).Nodup → (pids r.requests).Nodup ∧ (pids r.queue).Nodup) := by
  rcases pop_cases h with ⟨rfl, rfl⟩ | ⟨-, sorted, rfl, rfl⟩
  · simp [pids]
  · have hperm : (pids (Q.sort sortQueueLewiReqs queue).reverse).Perm (pids queue) :=
      ((reverse_perm _).trans (Q.perm sortQueueLewiReqs queue)).map _
    obtain ⟨heq, hsub⟩ := @popLoop_pids maxreqs (Q.sort sortQueueLewiReqs queue).reverse ncpus 0
    have hq : (pids (queueLewiReqsPack
        (popLoop maxreqs (Q.sort sortQueueLewiReqs queue).reverse ncpus 0).queue.reverse)).Sublist
        (pids (popLoop maxreqs (Q.sort sortQueueLewiReqs queue).reverse ncpus 0).queue.reverse) :=
      filter_sublist.map _
    have hrev : (pids (popLoop maxreqs (Q.sort sortQueueLewiReqs queue).reverse ncpus 0).queue.reverse).Perm
        (pids queue) := by
      have h0 := ((reverse_perm
        (popLoop maxreqs (Q.sort sortQueueLewiReqs queue).reverse ncpus 0).queue).map (·.pid))
      exact h0.trans (by rw [← pids, heq]; exact hperm)
    refine ⟨fun p hp => hperm.subset (hsub.subset hp), fun p hp => hrev.subset (hq.subset hp), fun hn => ⟨?_, ?_⟩⟩
    · exact hsub.nodup (hperm.nodup_iff.mpr hn)
    · exact hq.nodup (hrev.nodup_iff.mpr hn)

theorem pop_pos (h : queueLewiReqsPopNcpus Q debug queue ncpus maxreqs = some r) :
    (∀ x ∈ r.requests, 0 < x.howmany) ∧ ∀ x ∈ r.queue, 0 < x.howmany := by
  rcases pop_cases h with ⟨rfl, rfl⟩ | ⟨-, sorted, rfl, rfl⟩
  · simp
  · exact ⟨popLoop_pos _ _ _, fun x hx => by simpa using (mem_filter.mp hx).2⟩

theorem pop_served (h : queueLewiReqsPopNcpus Q debug queue ncpus maxreqs = some r) (hs : Spread queue)
    (hm : queue.length ≤ maxreqs) : r.ncpus = 0 ∨ r.queue = [] := by
  rcases pop_cases h with ⟨rfl, rfl⟩ | ⟨-, sorted, rfl, rfl⟩
  · exact Or.inr rfl
  · have hlen := (Q.perm sortQueueLewiReqs queue).length_eq
    have hasc : (Q.sort sortQueueLewiReqs queue).reverse.Pairwise fun a b => a.howmany ≤ b.howmany :=
      pairwise_reverse.mpr (sort_descending hs)
    rcases @popLoop_served maxreqs _ ncpus 0 (by simp; omega) hasc with h0 | h0
    · exact Or.inl h0
    · right
      refine filter_eq_nil_iff.mpr fun x hx => ?_
      simp [h0 x (mem_reverse.mp hx)]

theorem pop_all (h : queueLewiReqsPopNcpus Q debug queue ncpus maxreqs = some r) (hs : Spread queue)
    (hm : queue.length ≤ maxreqs) (hn : ncpus ≤ total queue) : r.ncpus = 0 := by
  rcases pop_served h hs hm with h0 | h0
  · exact h0
  · have h1 := pop_total h
    have h2 := pop_held h fun _ => True
    rw [h0, held_nil] at h2
    simp only [total] at hn h1
    omega

end PopNcpus

end Dlb

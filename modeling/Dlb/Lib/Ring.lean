import Mathlib.Data.List.Basic

/-!
# Rings of slots

A ring has `c` slots, numbered from `0`; after the last one comes the first. `slot c t k` is the slot `k` places after
`t`, and `contents slots c t n` lists what the `n` slots from `t` on hold, the farthest first. A deque in a ring grows
at the far end (`contents_push`) or at the near end (`contents_unshift`), shrinks likewise, and may be copied in two
pieces to the start of a larger ring (`contents_unroll`). `Block slots c t k l` says the same of a list that starts at
place `k`, the nearest first, for queues whose elements move one by one.
-/

namespace Lib.Ring

variable {α : Type*} {slots slots' : ℕ → α} {c t i k n : ℕ}

/-- The slot after `i`. -/
def next (c i : ℕ) : ℕ := if i + 1 < c then i + 1 else 0

/-- The slot before `i`. -/
def prev (c i : ℕ) : ℕ := if i = 0 then c - 1 else i - 1

/-- The slot `k` places after `t`. -/
def slot (c t k : ℕ) : ℕ := if t + k < c then t + k else t + k - c

/-! ## Places -/

@[simp] theorem slot_zero (h : t < c) : slot c t 0 = t := by simp [slot, h]

theorem slot_lt (ht : t < c) (hk : k ≤ c) : slot c t k < c := by
  unfold slot
  split_ifs <;> omega

theorem slot_full : slot c t c = t := by
  unfold slot
  split_ifs <;> omega

theorem slot_ne (hi : i < c) (hk : k < c) (h : i ≠ k) : slot c t i ≠ slot c t k := by
  unfold slot
  split_ifs <;> omega

theorem next_lt (h : t < c) : next c t < c := by
  unfold next
  split_ifs <;> omega

theorem prev_lt (h : t < c) : prev c t < c := by
  unfold prev
  split_ifs <;> omega

theorem next_slot (ht : t < c) (hk : k < c) : next c (slot c t k) = slot c t (k + 1) := by
  grind [next, slot]

theorem prev_slot (ht : t < c) : prev c (slot c t (k + 1)) = slot c t k := by
  grind [prev, slot]

theorem slot_next (ht : t < c) (hk : k < c) : slot c (next c t) k = slot c t (k + 1) := by
  grind [next, slot]

theorem slot_prev (ht : t < c) (hk : k < c) : slot c (prev c t) (k + 1) = slot c t k := by
  grind [prev, slot]

/-! ## Contents -/

/-- What the `n` slots from `t` on hold, the farthest first. -/
def contents (slots : ℕ → α) (c t : ℕ) : ℕ → List α
  | 0 => []
  | n + 1 => slots (slot c t n) :: contents slots c t n

@[simp] theorem contents_length : (contents slots c t n).length = n := by
  induction n with
  | zero => rfl
  | succ n ih => simp [contents, ih]

theorem contents_congr {c' t' : ℕ} (h : ∀ k < n, slots (slot c t k) = slots' (slot c' t' k)) :
    contents slots c t n = contents slots' c' t' n := by
  induction n with
  | zero => rfl
  | succ n ih =>
    have hrest := ih fun k hk => h k (by omega)
    simp [contents, h n (by omega), hrest]

theorem contents_update (x : α) (h : ∀ k < n, slot c t k ≠ i) :
    contents (Function.update slots i x) c t n = contents slots c t n :=
  contents_congr fun k hk => Function.update_of_ne (h k hk) x slots

theorem contents_push (x : α) (hn : n < c) :
    contents (Function.update slots (slot c t n) x) c t (n + 1) = x :: contents slots c t n := by
  have houtside : ∀ k < n, slot c t k ≠ slot c t n := fun k hk => slot_ne (by omega) hn (by omega)
  simp [contents, contents_update x houtside]

theorem contents_succ (ht : t < c) (hn : n < c) :
    contents slots c t (n + 1) = contents slots c (next c t) n ++ [slots t] := by
  induction n with
  | zero => simp [contents, ht]
  | succ n ih =>
    have hslot := slot_next (t := t) (k := n) ht (by omega)
    rw [contents, ih (by omega), contents, hslot]
    rfl

theorem contents_unshift (x : α) (ht : t < c) (hn : n < c) :
    contents (Function.update slots (prev c t) x) c (prev c t) (n + 1) = contents slots c t n ++ [x] := by
  have hnext : next c (prev c t) = t := by
    unfold next prev
    split_ifs <;> omega
  have houtside : ∀ k < n, slot c t k ≠ prev c t := by
    intro k hk
    unfold slot prev
    split_ifs <;> omega
  rw [contents_succ (prev_lt ht) hn, hnext, contents_update x houtside]
  simp

theorem contents_unroll {c' : ℕ} (ht : t < c) (hc : c ≤ c') (hfirst : ∀ k < c - t, slots' k = slots (t + k))
    (hsecond : ∀ k < t, slots' (c - t + k) = slots k) : contents slots' c' 0 c = contents slots c t c := by
  refine contents_congr fun k hk => ?_
  have hslot : slot c' 0 k = k := by
    unfold slot
    split_ifs <;> omega
  rw [hslot]
  by_cases hwrap : t + k < c
  · rw [hfirst k (by omega), slot, if_pos hwrap]
  · have hk' : k = c - t + (t + k - c) := by omega
    rw [slot, if_neg hwrap, hk', hsecond _ (by omega)]
    congr 1
    omega

/-! ## Blocks -/

/-- The slots from place `k` on hold the elements of a list, the nearest first. -/
def Block (slots : ℕ → α) (c t : ℕ) : ℕ → List α → Prop
  | _, [] => True
  | k, x :: l => slots (slot c t k) = x ∧ Block slots c t (k + 1) l

variable {l l1 l2 : List α} {x : α}

theorem Block.append : Block slots c t k (l1 ++ l2) ↔
    Block slots c t k l1 ∧ Block slots c t (k + l1.length) l2 := by
  induction l1 generalizing k with
  | nil => simp [Block]
  | cons x l1 ih => simp [Block, ih, and_assoc, Nat.add_right_comm, Nat.add_assoc]

theorem Block.congr (h : ∀ i, k ≤ i → i < k + l.length → slots' (slot c t i) = slots (slot c t i))
    (hblock : Block slots c t k l) : Block slots' c t k l := by
  induction l generalizing k with
  | nil => trivial
  | cons x l ih =>
    simp only [List.length_cons] at h
    exact ⟨(h k (Nat.le_refl k) (by omega)).trans hblock.1, ih (fun i hi hi' => h i (by omega) (by omega)) hblock.2⟩

theorem Block.update (hblock : Block slots c t k l) (hi : i < c) (hk : k + l.length ≤ c)
    (hout : i < k ∨ k + l.length ≤ i) (x : α) : Block (Function.update slots (slot c t i) x) c t k l :=
  hblock.congr fun j hj hj' => Function.update_of_ne (slot_ne (by omega) hi (by omega)) x slots

theorem Block.getElem (hblock : Block slots c t k l) (h : l[i]? = some x) : slots (slot c t (k + i)) = x := by
  induction l generalizing k i with
  | nil => cases h
  | cons y l ih =>
    cases i with
    | zero => exact hblock.1.trans (Option.some.inj h)
    | succ i =>
      have hrest := ih hblock.2 (i := i) h
      rwa [show k + (i + 1) = k + 1 + i by omega]

theorem Block.set (hblock : Block slots c t k l) (hk : k + l.length ≤ c) (hi : i < l.length) (x : α) :
    Block (Function.update slots (slot c t (k + i)) x) c t k (l.set i x) := by
  induction l generalizing k i with
  | nil => cases hi
  | cons y l ih =>
    rw [List.length_cons] at hk hi
    cases i with
    | zero => exact ⟨Function.update_self .., hblock.2.update (by omega) (by omega) (Or.inl (by omega)) x⟩
    | succ i =>
      have hrest := ih hblock.2 (i := i) (by omega) (by omega)
      rw [show k + 1 + i = k + (i + 1) by omega] at hrest
      exact ⟨(Function.update_of_ne (slot_ne (by omega) (by omega) (by omega)) x slots).trans hblock.1, hrest⟩

theorem Block.next (ht : t < c) (hk : k + l.length < c) :
    Block slots c (next c t) k l ↔ Block slots c t (k + 1) l := by
  induction l generalizing k with
  | nil => exact Iff.rfl
  | cons x l ih =>
    rw [List.length_cons] at hk
    simp only [Block]
    rw [slot_next ht (by omega), ih (by omega)]

end Lib.Ring

import Mathlib.Algebra.Group.Nat.Defs

/-!
# Comparing floating-point numbers

The words of a binary interchange format of any width, with `m` bits of fraction, as `<` sees them: a number is a whole
multiple of the least positive one, the infinities lie beyond all numbers, and a NaN is not less than anything.
-/

namespace Lib.Ieee

variable {n : ℕ}

def magnitude (w : BitVec n) : ℕ := w.toNat % 2 ^ (n - 1)

/-- The magnitude of the infinities; beyond are the NaNs. -/
def infinity (n m : ℕ) : ℕ := 2 ^ (n - 1) - 2 ^ m

/-- How many times the least positive number a magnitude is. -/
def multiple (m magnitude : ℕ) : ℕ :=
  if magnitude / 2 ^ m = 0 then magnitude % 2 ^ m else (2 ^ m + magnitude % 2 ^ m) * 2 ^ (magnitude / 2 ^ m - 1)

def value (m : ℕ) (w : BitVec n) : ℤ := if w.msb then -multiple m (magnitude w) else multiple m (magnitude w)

/-- The comparison `v < w`. -/
def Lt (m : ℕ) (v w : BitVec n) : Prop :=
  magnitude v ≤ infinity n m ∧ magnitude w ≤ infinity n m ∧ value m v < value m w

instance (m : ℕ) (v w : BitVec n) : Decidable (Lt m v w) := inferInstanceAs (Decidable (_ ∧ _ ∧ _))

theorem multiple_eq_zero_iff {m k : ℕ} : multiple m k = 0 ↔ k = 0 := by
  have hdiv := Nat.div_add_mod k (2 ^ m)
  have hpos : 0 < 2 ^ m := Nat.two_pow_pos m
  unfold multiple
  split
  · next h =>
    rw [h, Nat.mul_zero, Nat.zero_add] at hdiv
    rw [hdiv]
  · next h =>
    have hmul : 0 < (2 ^ m + k % 2 ^ m) * 2 ^ (k / 2 ^ m - 1) :=
      Nat.mul_pos (Nat.add_pos_left hpos _) (Nat.two_pow_pos _)
    constructor
    · intro h0
      omega
    · rintro rfl
      exact absurd (Nat.zero_div _) h

theorem magnitude_zero : magnitude 0#n = 0 := by
  unfold magnitude
  rw [BitVec.toNat_zero, Nat.zero_mod]

theorem value_zero (m : ℕ) : value m 0#n = 0 := by
  unfold value
  rw [magnitude_zero, multiple_eq_zero_iff.mpr rfl]
  split <;> rfl

theorem lt_zero_iff {m : ℕ} {w : BitVec n} :
    Lt m w 0#n ↔ w.msb = true ∧ magnitude w ≠ 0 ∧ magnitude w ≤ infinity n m := by
  have hzero : magnitude 0#n ≤ infinity n m := by rw [magnitude_zero]; exact Nat.zero_le _
  unfold Lt
  rw [value_zero, value]
  constructor
  · rintro ⟨hw, -, hneg⟩
    split at hneg
    · next hmsb =>
      refine ⟨hmsb, fun h0 => ?_, hw⟩
      rw [multiple_eq_zero_iff.mpr h0] at hneg
      omega
    · omega
  · rintro ⟨hmsb, h0, hw⟩
    refine ⟨hw, hzero, ?_⟩
    have hpos : multiple m (magnitude w) ≠ 0 := fun h => h0 (multiple_eq_zero_iff.mp h)
    rw [if_pos hmsb]
    omega

theorem not_zero_lt_zero (m : ℕ) : ¬Lt m 0#n 0#n := fun h => (lt_zero_iff.mp h).2.1 magnitude_zero

end Lib.Ieee

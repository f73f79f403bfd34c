import Mathlib.Data.Finset.Union

/-!
# Atomic flags

The functions of `atomic.h` that change bits of an integer. The integer is the set of its bits, and a function returns
the new flags and whether it has changed them.
-/

namespace Dlb

variable {β : Type*} [DecidableEq β] (flags : Finset β)

/-- `set_bit` -/
def setBit (bit : Finset β) : Finset β × Bool :=
  if bit = ∅ then (flags, false)
  else if (flags ∩ bit).Nonempty then (flags, false)
  else (flags ∪ bit, true)

/-- `clear_bit` -/
def clearBit (bit : Finset β) : Finset β × Bool :=
  if bit = ∅ then (flags, false)
  else if (flags ∩ bit).Nonempty then (flags \ bit, true)
  else (flags, false)

/-- `cas_bit` -/
def casBit (expected desired : Finset β) : Finset β × Bool :=
  if ¬(flags ∩ expected).Nonempty ∧ ¬(flags = ∅ ∧ expected = ∅) then (flags, false)
  else ((flags \ expected) ∪ desired, true)

/-- `test_set_clear_bit` -/
def testSetClearBit (set clear : Finset β) : Finset β × Bool :=
  if (flags ∩ set).Nonempty ∨ flags = ∅ ∧ set = ∅ then (flags, false)
  else ((flags \ clear) ∪ set, true)

variable {flags : Finset β}

theorem casBit_singleton (a b : β) :
    casBit flags {a} {b} = if a ∈ flags then ((flags \ {a}) ∪ {b}, true) else (flags, false) := by
  unfold casBit
  by_cases ha : a ∈ flags <;> simp [ha]

theorem casBit_unchanged {a b : Finset β} (h : ¬ (casBit flags a b).2 = true) : (casBit flags a b).1 = flags := by
  unfold casBit at h ⊢
  split at h
  · rename_i hcas
    rw [if_pos hcas]
  · exact absurd rfl h

theorem mem_casBit_of_ne {a b flag : β} (ha : flag ≠ a) (hb : flag ≠ b) :
    flag ∈ (casBit flags {a} {b}).1 ↔ flag ∈ flags := by
  rw [casBit_singleton]
  split
  · simp [ha, hb]
  · rfl

theorem casBit_succeeds {a b : β} : (casBit flags {a} {b}).2 = true ↔ a ∈ flags := by
  rw [casBit_singleton]
  by_cases ha : a ∈ flags <;> simp [ha]

theorem mem_casBit_desired {a b : β} (hab : a ≠ b) : b ∈ (casBit flags {a} {b}).1 ↔ b ∈ flags ∨ a ∈ flags := by
  rw [casBit_singleton]
  by_cases ha : a ∈ flags <;> simp [ha, hab.symm]

theorem notMem_casBit_expected {a b : β} (hab : a ≠ b) : a ∉ (casBit flags {a} {b}).1 := by
  rw [casBit_singleton]
  by_cases ha : a ∈ flags <;> simp [ha, hab]

theorem mem_setBit_of_ne {a flag : β} (ha : flag ≠ a) : flag ∈ (setBit flags {a}).1 ↔ flag ∈ flags := by
  unfold setBit
  split
  · rfl
  split
  · rfl
  · simp [ha]

theorem testSetClearBit_set {a b : β} (h : (testSetClearBit flags {a} {b}).2 = true) :
    a ∉ flags ∧ a ∈ (testSetClearBit flags {a} {b}).1 := by
  unfold testSetClearBit at h ⊢
  split at h
  · cases h
  · rename_i hset
    rw [if_neg hset]
    refine ⟨fun ha => hset (.inl ⟨a, by simp [ha]⟩), by simp⟩

theorem clearBit_cleared {a : β} (h : (clearBit flags {a}).2 = true) : a ∈ flags ∧ a ∉ (clearBit flags {a}).1 := by
  unfold clearBit at h ⊢
  rw [if_neg (Finset.singleton_ne_empty a)] at h ⊢
  split at h
  · rename_i hset
    rw [if_pos hset]
    obtain ⟨x, hx⟩ := hset
    simp only [Finset.mem_inter, Finset.mem_singleton] at hx
    exact ⟨hx.2 ▸ hx.1, by simp⟩
  · cases h

end Dlb

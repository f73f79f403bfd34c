import Dlb.Support.Types
import Mathlib.Data.List.DropRight

/-!
# The shared memory of barriers

`shmem_barrier.c`. A barrier has a name and a number of participants; a slot is free where it is not initialized and
has no participants. The slots are those below `num_barriers`, and a pointer to a barrier is the number of its slot.
Every operation runs under the lock of the shared memory or of the barrier, so an operation is a function of the state.
-/

namespace Dlb.Barrier

open List

def barrierNameMax : ℕ := 32

structure BarrierT where
  name : List Char := []
  initialized : Bool := false
  lewi : Bool := false
  participants : ℕ := 0
  ntimes : ℕ := 0
  count : ℕ := 0
deriving DecidableEq

/-- `shdata_t`; `num_barriers` is the number of slots. -/
structure BarrierShmem where
  initialized : Bool := false
  maxBarriers : ℕ := 0
  barriers : List BarrierT := []
deriving DecidableEq

/-- Decrement of an `unsigned int`. -/
def decU32 (n : ℕ) : ℕ := if n = 0 then 2 ^ 32 - 1 else n - 1

/-- The barrier is there and has that name, as far as names are compared. -/
def BarrierT.isNamed (b : BarrierT) (name : List Char) : Bool :=
  0 < b.participants ∧ b.initialized ∧ b.name.take (barrierNameMax - 1) = name.take (barrierNameMax - 1)

def BarrierT.isEmptySpot (b : BarrierT) : Bool := b.participants = 0 ∧ b.initialized = false

def BarrierT.create (name : List Char) (lewi : Bool) : BarrierT :=
  { name := name.take (barrierNameMax - 1), initialized := true, lewi := lewi, participants := 1 }

/-- The barrier of a slot, which is zero beyond the last one. -/
def slot (l : List BarrierT) (i : ℕ) : BarrierT := l[i]?.getD {}

/-- The slots behind the last initialized one are given up. -/
def compact (l : List BarrierT) : List BarrierT := l.rdropWhile fun b => !b.initialized

namespace BarrierShmem

variable (d : BarrierShmem)

/-- `shmem_barrier__init`, of a process with its own `max_barriers`. -/
def shmemBarrierInit (size : ℕ) : BarrierShmem × DlbError :=
  if d.initialized then (d, if d.maxBarriers ≠ size then .errInit else .success)
  else ({ initialized := true, maxBarriers := size, barriers := [] }, .success)

def find (name : List Char) : Option ℕ := d.barriers.findIdx? (·.isNamed name)

/-- The place for a new barrier: an empty slot, or else a new one while there is room. -/
def place (size : ℕ) : Option ℕ :=
  match d.barriers.findIdx? (·.isEmptySpot) with
  | some i => some i
  | none => if d.barriers.length < size then some d.barriers.length else none

def write (i : ℕ) (b : BarrierT) : BarrierShmem :=
  { d with barriers := if i < d.barriers.length then d.barriers.set i b else d.barriers ++ [b] }

def join (i : ℕ) : BarrierShmem :=
  d.write i { slot d.barriers i with participants := (slot d.barriers i).participants + 1 }

/-- `shmem_barrier__register`, in a process with its own `max_barriers`. -/
def shmemBarrierRegister (name : List Char) (lewi : Bool) (size : ℕ) : BarrierShmem × Option ℕ :=
  match d.find name with
  | some i => (d.join i, some i)
  | none =>
    match d.place size with
    | some i => (d.write i (.create name lewi), some i)
    | none => (d, none)

/-- `shmem_barrier__attach`: the number of participants, or an error. -/
def shmemBarrierAttach (i : ℕ) : BarrierShmem × Except DlbError ℕ :=
  if (slot d.barriers i).initialized = false ∨ (slot d.barriers i).participants = 0 then (d, .error .errPerm)
  else (d.join i, .ok ((slot d.barriers i).participants + 1))

/-- One participant less; the last one removes the barrier. -/
def leave (i : ℕ) : BarrierShmem :=
  if (slot d.barriers i).participants - 1 = 0 then { d with barriers := compact (d.write i {}).barriers }
  else d.write i { slot d.barriers i with participants := (slot d.barriers i).participants - 1 }

/-- `shmem_barrier__detach`: the number of participants, or an error. -/
def shmemBarrierDetach (i : ℕ) : BarrierShmem × Except DlbError ℕ :=
  if (slot d.barriers i).initialized = false ∨ (slot d.barriers i).participants = 0 then (d, .error .errPerm)
  else (d.leave i, .ok ((slot d.barriers i).participants - 1))

/-- What `cleanup_shmem` does to a slot. -/
def cleanupSlot (b : BarrierT) : BarrierT :=
  if decU32 b.participants = 0 then {} else { b with participants := decU32 b.participants }

/-- `cleanup_shmem`, which does not look at the pid. If nothing is left, the shared memory is zeroed. -/
def cleanupShmem : BarrierShmem :=
  if d.barriers.all fun b => decU32 b.participants = 0 then {}
  else { d with barriers := d.barriers.map cleanupSlot }

end BarrierShmem

/-! ## Slots -/

section Slots

variable {d : BarrierShmem} {l : List BarrierT} {b : BarrierT} {i j size : ℕ} {name : List Char}

theorem slot_of_lt (h : i < l.length) : slot l i = l[i] := by
  rw [slot, getElem?_eq_getElem h, Option.getD_some]

theorem slot_of_le (h : l.length ≤ i) : slot l i = {} := by
  rw [slot, getElem?_eq_none h, Option.getD_none]

theorem lt_of_initialized (h : (slot l i).initialized = true) : i < l.length := by
  by_contra hle
  rw [slot_of_le (Nat.le_of_not_lt hle)] at h
  exact nomatch h

theorem slot_mem (h : i < l.length) : slot l i ∈ l := by
  rw [slot_of_lt h]
  exact getElem_mem h

theorem slot_write (h : i ≤ d.barriers.length) :
    slot (d.write i b).barriers j = if j = i then b else slot d.barriers j := by
  unfold BarrierShmem.write slot
  split
  · rename_i hlt
    by_cases hj : i = j
    · subst hj
      simp [hlt]
    · simp [hj, Ne.symm hj]
  · have hi : i = d.barriers.length := by omega
    obtain hj | rfl | hj := Nat.lt_trichotomy j i
    · rw [getElem?_append_left (by omega), if_neg (by omega)]
    · simp [hi]
    · rw [getElem?_eq_none (by rw [length_append, length_singleton]; omega), if_neg (by omega),
        getElem?_eq_none (by omega)]

theorem compact_initialized : (slot (compact l) i).initialized = (slot l i).initialized := by
  induction l using reverseRecOn with
  | nil => rfl
  | append_singleton l b ih =>
    rw [compact, rdropWhile_concat]
    split
    · rename_i hb
      rw [show rdropWhile _ l = compact l from rfl, ih]
      obtain hlt | rfl | hgt := Nat.lt_trichotomy i l.length
      · rw [slot, slot, getElem?_append_left hlt]
      · rw [slot_of_le (Nat.le_refl _)]
        simpa [slot] using hb
      · rw [slot_of_le (Nat.le_of_lt hgt), slot_of_le (by rw [length_append, length_singleton]; omega)]
    · rfl

theorem slot_compact : slot (compact l) i =
    if (slot l i).initialized = false ∧ (compact l).length ≤ i then {} else slot l i := by
  have hpre : compact l <+: l := rdropWhile_prefix _ _
  by_cases hlt : i < (compact l).length
  · rw [if_neg (fun h => absurd hlt (Nat.not_lt.mpr h.2)), slot_of_lt hlt,
      slot_of_lt (Nat.lt_of_lt_of_le hlt hpre.length_le), hpre.getElem hlt]
  · have hgone := slot_of_le (Nat.le_of_not_lt hlt)
    have hinit : (slot l i).initialized = false := by
      rw [← compact_initialized, hgone]
    rw [if_pos ⟨hinit, Nat.le_of_not_lt hlt⟩, hgone]

end Slots

/-! ## Operations -/

section Operations

variable {d : BarrierShmem} {i j size : ℕ} {name : List Char} {lewi : Bool}

theorem BarrierShmem.find_some (h : d.find name = some i) :
    i < d.barriers.length ∧ (slot d.barriers i).isNamed name = true := by
  obtain ⟨hi, hname, -⟩ := findIdx?_eq_some_iff_getElem.mp h
  exact ⟨hi, by rwa [slot_of_lt hi]⟩

theorem BarrierShmem.find_none (h : d.find name = none) (i : ℕ) : (slot d.barriers i).isNamed name = false := by
  by_cases hi : i < d.barriers.length
  · exact findIdx?_eq_none_iff.mp h _ (slot_mem hi)
  · rw [slot_of_le (Nat.le_of_not_lt hi)]
    rfl

theorem BarrierShmem.place_some (h : d.place size = some i) :
    i ≤ d.barriers.length ∧ (slot d.barriers i).isEmptySpot = true := by
  rw [BarrierShmem.place] at h
  split at h
  · rename_i k hk
    obtain rfl := Option.some.inj h
    obtain ⟨hi, hempty, -⟩ := findIdx?_eq_some_iff_getElem.mp hk
    exact ⟨Nat.le_of_lt hi, by rwa [slot_of_lt hi]⟩
  · split at h
    · obtain rfl := Option.some.inj h
      exact ⟨Nat.le_refl _, by rw [slot_of_le (Nat.le_refl _)]; rfl⟩
    · exact nomatch h

theorem BarrierShmem.register_cases (d : BarrierShmem) (name : List Char) (lewi : Bool) (size : ℕ) :
    (∃ i, d.find name = some i ∧ d.shmemBarrierRegister name lewi size = (d.join i, some i)) ∨
    (∃ i, d.find name = none ∧ d.place size = some i ∧
      d.shmemBarrierRegister name lewi size = (d.write i (.create name lewi), some i)) ∨
    (d.find name = none ∧ d.place size = none ∧ d.shmemBarrierRegister name lewi size = (d, none)) := by
  rw [BarrierShmem.shmemBarrierRegister]
  cases hfind : d.find name with
  | some i => exact .inl ⟨i, rfl, rfl⟩
  | none =>
    cases hplace : d.place size with
    | some i => exact .inr (.inl ⟨i, rfl, rfl, rfl⟩)
    | none => exact .inr (.inr ⟨rfl, rfl, rfl⟩)

theorem slot_join (h : i < d.barriers.length) : slot (d.join i).barriers j =
    if j = i then { slot d.barriers i with participants := (slot d.barriers i).participants + 1 }
    else slot d.barriers j :=
  slot_write (Nat.le_of_lt h)

/-- What holds of the slots between the operations: one that is not initialized is zero, the others have
participants. -/
structure BarrierShmem.WellFormed (d : BarrierShmem) : Prop where
  zero : ∀ i, (slot d.barriers i).initialized = false → slot d.barriers i = {}
  pos : ∀ i, (slot d.barriers i).initialized = true → 0 < (slot d.barriers i).participants

namespace BarrierShmem.WellFormed

theorem init : WellFormed {} where
  zero := fun _ _ => rfl
  pos := nofun

theorem participants_pos_iff (h : d.WellFormed) :
    0 < (slot d.barriers i).participants ↔ (slot d.barriers i).initialized = true := by
  refine ⟨fun hpos => ?_, h.pos i⟩
  by_contra hinit
  rw [h.zero i (by simpa using hinit)] at hpos
  exact Nat.lt_irrefl _ hpos

theorem write (h : d.WellFormed) {b : BarrierT} (hi : i ≤ d.barriers.length) (hinit : b.initialized = true)
    (hpos : 0 < b.participants) : (d.write i b).WellFormed where
  zero := by
    intro j hj
    rw [slot_write hi] at hj ⊢
    split at hj
    · exact nomatch hinit.symm.trans hj
    · rename_i hne
      rw [if_neg hne, h.zero j hj]
  pos := by
    intro j hj
    rw [slot_write hi] at hj ⊢
    split
    · exact hpos
    · rename_i hne
      rw [if_neg hne] at hj
      exact h.pos j hj

theorem join (h : d.WellFormed) (hinit : (slot d.barriers i).initialized = true) : (d.join i).WellFormed :=
  h.write (Nat.le_of_lt (lt_of_initialized hinit)) hinit (Nat.succ_pos _)

theorem create (h : d.WellFormed) (hplace : d.place size = some i) :
    (d.write i (.create name lewi)).WellFormed :=
  h.write (BarrierShmem.place_some hplace).1 rfl Nat.one_pos

theorem slot_leave (h : d.WellFormed) (hinit : (slot d.barriers i).initialized = true) :
    slot (d.leave i).barriers j =
      if j = i then
        if (slot d.barriers i).participants - 1 = 0 then {}
        else { slot d.barriers i with participants := (slot d.barriers i).participants - 1 }
      else slot d.barriers j := by
  have hi : i ≤ d.barriers.length := Nat.le_of_lt (lt_of_initialized hinit)
  rw [BarrierShmem.leave]
  split
  · dsimp only
    rw [slot_compact, slot_write hi]
    by_cases hj : j = i
    · rw [if_pos hj]
      exact ite_self _
    · rw [if_neg hj]
      split
      · rename_i hgone
        exact (h.zero j hgone.1).symm
      · rfl
  · rw [slot_write hi]

theorem leave (h : d.WellFormed) (hinit : (slot d.barriers i).initialized = true) : (d.leave i).WellFormed where
  zero := by
    intro j hj
    rw [h.slot_leave hinit] at hj ⊢
    by_cases hji : j = i
    · rw [if_pos hji] at hj ⊢
      split at hj
      · rename_i hlast
        rw [if_pos hlast]
      · exact nomatch hinit.symm.trans hj
    · rw [if_neg hji] at hj ⊢
      exact h.zero j hj
  pos := by
    intro j hj
    rw [h.slot_leave hinit] at hj ⊢
    by_cases hji : j = i
    · rw [if_pos hji] at hj ⊢
      split at hj
      · exact nomatch hj
      · rename_i hmore
        rw [if_neg hmore]
        exact Nat.pos_of_ne_zero hmore
    · rw [if_neg hji] at hj ⊢
      exact h.pos j hj

end BarrierShmem.WellFormed

end Operations

end Dlb.Barrier

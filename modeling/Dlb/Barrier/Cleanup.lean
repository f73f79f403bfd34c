import Dlb.Barrier.Shmem
import Dlb.Lib.Run

/-!
# Cleaning up after a dead process

A process that attaches calls `cleanup_shmem` for each process that it finds dead. The slots only have counters, so that
`cleanup_shmem` cannot know the barriers of the dead process and takes one participant from every slot, the free ones
among them.

A run is of one shared memory: processes register, attach to barriers, leave those that they are attached to, and die.

* `Attached`: the slots have at least as many participants as attachments, kept by every event where it holds.
-/

namespace Dlb.Barrier

open List Lib

/-- The shared memory, and for each slot who has attached to its barrier and not left it. -/
structure BarrierRun where
  shmem : BarrierShmem := {}
  holders : ℕ → List Pid := fun _ => []

inductive BarrierEvent where
  | init (size : ℕ)
  | register (pid : Pid) (name : List Char) (lewi : Bool) (size : ℕ)
  | attach (pid : Pid) (i : ℕ)
  | detach (pid : Pid) (i : ℕ)
  | cleanup (pid : Pid)

namespace BarrierRun

variable (s : BarrierRun)

def hold (pid : Pid) (i : ℕ) : ℕ → List Pid := Function.update s.holders i (pid :: s.holders i)

/-- One event. A process leaves only a barrier to which it is attached; the barriers of a shared memory that is not
initialized are lost. -/
def exec : BarrierEvent → BarrierRun
  | .init size =>
    { shmem := (s.shmem.shmemBarrierInit size).1
      holders := if s.shmem.initialized then s.holders else fun _ => [] }
  | .register pid name lewi size =>
    { shmem := (s.shmem.shmemBarrierRegister name lewi size).1
      holders := ((s.shmem.shmemBarrierRegister name lewi size).2.map (s.hold pid)).getD s.holders }
  | .attach pid i =>
    { shmem := (s.shmem.shmemBarrierAttach i).1
      holders := if (s.shmem.shmemBarrierAttach i).2.isOk then s.hold pid i else s.holders }
  | .detach pid i =>
    if pid ∈ s.holders i then
      { shmem := (s.shmem.shmemBarrierDetach i).1
        holders := if (s.shmem.shmemBarrierDetach i).2.isOk then
            Function.update s.holders i ((s.holders i).erase pid) else s.holders }
    else s
  | .cleanup pid => { shmem := s.shmem.cleanupShmem, holders := fun i => (s.holders i).filter (· ≠ pid) }

end BarrierRun

/-- A cleanup takes a participant from the barriers of the dead process and from no other one, below zero never; it
leaves the slots with participants initialized and the other ones free, and the barriers that a living process holds in
place. -/
structure CleanupOk (s : BarrierRun) (pid : Pid) : Prop where
  decremented : ∀ i < s.shmem.barriers.length, pid ∈ s.holders i →
    (slot s.shmem.cleanupShmem.barriers i).participants + 1 = (slot s.shmem.barriers i).participants
  others : ∀ i < s.shmem.barriers.length, pid ∉ s.holders i →
    (slot s.shmem.cleanupShmem.barriers i).participants = (slot s.shmem.barriers i).participants
  initialized : ∀ i < s.shmem.cleanupShmem.barriers.length,
    (slot s.shmem.cleanupShmem.barriers i).initialized = true ↔ 0 < (slot s.shmem.cleanupShmem.barriers i).participants
  living : ∀ i, (∃ q ∈ s.holders i, q ≠ pid) → (slot s.shmem.barriers i).initialized = true →
    (slot s.shmem.cleanupShmem.barriers i).initialized = true
  reusable : ∀ i, (slot s.shmem.cleanupShmem.barriers i).initialized = false →
    (slot s.shmem.cleanupShmem.barriers i).isEmptySpot = true

/-- An event that is a cleanup does what it should. -/
def CleansUp (s : BarrierRun) : BarrierEvent → Prop
  | .cleanup pid => CleanupOk s pid
  | _ => True

/-- A process that is cleaned up was attached to every slot. -/
def DeadHoldsAll (s : BarrierRun) : BarrierEvent → Prop
  | .cleanup pid => ∀ i < s.shmem.barriers.length, pid ∈ s.holders i
  | _ => True

/-! ## The invariant -/

structure Attached (s : BarrierRun) : Prop where
  wellFormed : s.shmem.WellFormed
  counted : ∀ i, (s.holders i).length ≤ (slot s.shmem.barriers i).participants

section Events

variable {s : BarrierRun} {pid : Pid} {i size : ℕ} {name : List Char} {lewi : Bool}

theorem Attached.start : Attached {} where
  wellFormed := .init
  counted := fun _ => Nat.zero_le _

theorem Attached.initialized (h : Attached s) (hmem : pid ∈ s.holders i) :
    (slot s.shmem.barriers i).initialized = true := by
  rw [← h.wellFormed.participants_pos_iff]
  exact Nat.lt_of_lt_of_le (length_pos_of_mem hmem) (h.counted i)

theorem Attached.hold (h : Attached s) {d : BarrierShmem} (hd : d.WellFormed)
    (hi : (slot s.shmem.barriers i).participants + 1 ≤ (slot d.barriers i).participants)
    (hother : ∀ j, j ≠ i → (slot d.barriers j).participants = (slot s.shmem.barriers j).participants) :
    Attached { shmem := d, holders := s.hold pid i } where
  wellFormed := hd
  counted := by
    intro j
    change (s.hold pid i j).length ≤ (slot d.barriers j).participants
    rw [BarrierRun.hold]
    obtain rfl | hne := eq_or_ne j i
    · rw [Function.update_self, length_cons]
      exact Nat.le_trans (Nat.succ_le_succ (h.counted j)) hi
    · rw [Function.update_of_ne hne, hother j hne]
      exact h.counted j

theorem Attached.join (h : Attached s) (hinit : (slot s.shmem.barriers i).initialized = true) :
    Attached { shmem := s.shmem.join i, holders := s.hold pid i } := by
  have hlt := lt_of_initialized hinit
  refine h.hold (h.wellFormed.join hinit) ?_ fun j hj => ?_
  · rw [slot_join hlt, if_pos rfl]
  · rw [slot_join hlt, if_neg hj]

theorem Attached.register (h : Attached s) : Attached (s.exec (.register pid name lewi size)) := by
  rw [BarrierRun.exec]
  obtain ⟨i, hfind, hreg⟩ | ⟨i, -, hplace, hreg⟩ | ⟨-, -, hreg⟩ := s.shmem.register_cases name lewi size
  · rw [hreg]
    have hnamed := (BarrierShmem.find_some hfind).2
    refine h.join (h.wellFormed.participants_pos_iff.mp ?_)
    exact (of_decide_eq_true hnamed).1
  · rw [hreg]
    obtain ⟨hle, hempty⟩ := BarrierShmem.place_some hplace
    refine h.hold (h.wellFormed.create hplace) ?_ fun j hj => ?_
    · rw [slot_write hle, if_pos rfl, (of_decide_eq_true hempty).1]
      exact Nat.le_refl _
    · rw [slot_write hle, if_neg hj]
  · rw [hreg]
    exact h

theorem Attached.attach (h : Attached s) : Attached (s.exec (.attach pid i)) := by
  rw [BarrierRun.exec, BarrierShmem.shmemBarrierAttach]
  split
  · exact h
  · rename_i hok
    exact h.join (by simpa using fun hinit => hok (.inl hinit))

theorem Attached.detach (h : Attached s) : Attached (s.exec (.detach pid i)) := by
  rw [BarrierRun.exec]
  split
  · rename_i hmem
    have hinit := h.initialized hmem
    have hpos := h.wellFormed.pos i hinit
    have hvalid : ¬ ((slot s.shmem.barriers i).initialized = false ∨ (slot s.shmem.barriers i).participants = 0) := by
      rintro (hno | hzero)
      · exact nomatch hinit.symm.trans hno
      · omega
    rw [BarrierShmem.shmemBarrierDetach, if_neg hvalid]
    refine { wellFormed := h.wellFormed.leave hinit, counted := fun j => ?_ }
    have hslot := h.wellFormed.slot_leave (j := j) hinit
    change (Function.update s.holders i ((s.holders i).erase pid) j).length ≤
      (slot (s.shmem.leave i).barriers j).participants
    rw [hslot]
    obtain rfl | hne := eq_or_ne j i
    · have hcount := h.counted j
      rw [Function.update_self, if_pos rfl, length_erase_of_mem hmem]
      split
      · dsimp only
        omega
      · dsimp only
        omega
    · rw [Function.update_of_ne hne, if_neg hne]
      exact h.counted j
  · exact h

theorem Attached.reset (h : Attached s) : Attached (s.exec (.init size)) := by
  rw [BarrierRun.exec, BarrierShmem.shmemBarrierInit]
  split
  · exact h
  · exact { wellFormed := { zero := fun _ _ => rfl, pos := nofun }, counted := fun _ => Nat.zero_le _ }

/-! ## Cleanups -/

theorem slot_cleanup (d : BarrierShmem) (i : ℕ) : slot d.cleanupShmem.barriers i =
    if i < d.barriers.length then BarrierShmem.cleanupSlot (slot d.barriers i) else {} := by
  rw [BarrierShmem.cleanupShmem]
  split
  · rename_i hall
    rw [slot_of_le (Nat.zero_le _)]
    split
    · rename_i hi
      have hzero := all_eq_true.mp hall _ (slot_mem hi)
      rw [BarrierShmem.cleanupSlot, if_pos (of_decide_eq_true hzero)]
    · rfl
  · dsimp only
    split
    · rename_i hi
      rw [slot_of_lt (by rwa [length_map]), getElem_map, slot_of_lt hi]
    · rename_i hi
      rw [slot_of_le (by rw [length_map]; exact Nat.le_of_not_lt hi)]

theorem cleanupSlot_participants (b : BarrierT) : (BarrierShmem.cleanupSlot b).participants = decU32 b.participants := by
  rw [BarrierShmem.cleanupSlot]
  split
  · rename_i h
    exact h.symm
  · rfl

theorem decU32_ne (n : ℕ) : decU32 n ≠ n := by
  unfold decU32
  split <;> omega

theorem Attached.slot_cleanup (h : Attached s) (hall : ∀ i < s.shmem.barriers.length, pid ∈ s.holders i) (i : ℕ) :
    slot s.shmem.cleanupShmem.barriers i =
      if (slot s.shmem.barriers i).participants ≤ 1 then {}
      else { slot s.shmem.barriers i with participants := (slot s.shmem.barriers i).participants - 1 } := by
  rw [Barrier.slot_cleanup]
  split
  · rename_i hi
    have hpos := h.wellFormed.pos i (h.initialized (hall i hi))
    rw [BarrierShmem.cleanupSlot, decU32, if_neg (Nat.ne_of_gt hpos)]
    split
    · rw [if_pos (by omega)]
    · rw [if_neg (by omega)]
  · rename_i hi
    rw [slot_of_le (Nat.le_of_not_lt hi)]
    rfl

theorem Attached.zero_cleanup (h : Attached s) (hall : ∀ i < s.shmem.barriers.length, pid ∈ s.holders i) (i : ℕ)
    (hgone : (slot s.shmem.cleanupShmem.barriers i).initialized = false) :
    slot s.shmem.cleanupShmem.barriers i = {} := by
  rw [h.slot_cleanup hall] at hgone ⊢
  split
  · rfl
  · rename_i hmore
    rw [if_neg hmore] at hgone
    rw [h.wellFormed.zero i hgone] at hmore
    exact absurd (Nat.zero_le 1) hmore

theorem Attached.cleanupOk (h : Attached s) (hall : ∀ i < s.shmem.barriers.length, pid ∈ s.holders i) :
    CleanupOk s pid where
  decremented := by
    intro i _ hmem
    have hpos := h.wellFormed.pos i (h.initialized hmem)
    rw [h.slot_cleanup hall]
    split
    · dsimp only
      omega
    · dsimp only
      omega
  others := fun i hi hmem => absurd (hall i hi) hmem
  initialized := by
    intro i _
    rw [h.slot_cleanup hall]
    split
    · simp
    · rename_i hmore
      rw [← h.wellFormed.participants_pos_iff]
      dsimp only
      omega
  living := by
    rintro i ⟨q, hq, hne⟩ hinit
    have hmem := hall i (lt_of_initialized hinit)
    -- the dead process and another one are both counted
    have htwo : 2 ≤ (s.holders i).length := by
      have hlen := length_erase_of_mem hmem
      have hpos := length_pos_of_mem ((mem_erase_of_ne hne).mpr hq)
      omega
    have hcount := h.counted i
    rw [h.slot_cleanup hall, if_neg (by omega)]
    exact hinit
  reusable := by
    intro i hgone
    rw [h.zero_cleanup hall i hgone]
    rfl

theorem Attached.cleanup (h : Attached s) (hall : ∀ i < s.shmem.barriers.length, pid ∈ s.holders i) :
    Attached (s.exec (.cleanup pid)) where
  wellFormed :=
    { zero := h.zero_cleanup hall
      pos := by
        intro i hinit
        have hinit : (slot s.shmem.cleanupShmem.barriers i).initialized = true := hinit
        exact ((h.cleanupOk hall).initialized i (lt_of_initialized hinit)).mp hinit }
  counted := by
    intro i
    change ((s.holders i).filter (· ≠ pid)).length ≤ (slot s.shmem.cleanupShmem.barriers i).participants
    have hcount := h.counted i
    by_cases hmem : pid ∈ s.holders i
    · have hlt : ((s.holders i).filter (· ≠ pid)).length < (s.holders i).length :=
        length_filter_lt_length_iff_exists.mpr ⟨pid, hmem, by simp⟩
      have hdec := (h.cleanupOk hall).decremented i (lt_of_initialized (h.initialized hmem)) hmem
      omega
    · have hi : s.shmem.barriers.length ≤ i := by
        by_contra hlt
        exact hmem (hall i (Nat.lt_of_not_le hlt))
      rw [slot_of_le hi] at hcount
      rw [eq_nil_of_length_eq_zero (Nat.le_zero.mp hcount), filter_nil]
      exact Nat.zero_le _

theorem CleanupOk.deadHoldsAll (hok : CleanupOk s pid) : ∀ i < s.shmem.barriers.length, pid ∈ s.holders i := by
  intro i hi
  by_contra hmem
  have hsame := hok.others i hi hmem
  rw [slot_cleanup, if_pos hi, cleanupSlot_participants] at hsame
  exact decU32_ne _ hsame

theorem Attached.exec (h : Attached s) (e : BarrierEvent) (hdead : DeadHoldsAll s e) : Attached (s.exec e) := by
  cases e with
  | init size => exact h.reset
  | register pid name lewi size => exact h.register
  | attach pid i => exact h.attach
  | detach pid i => exact h.detach
  | cleanup pid => exact h.cleanup hdead

theorem Attached.cleansUp_iff (h : Attached s) (e : BarrierEvent) : CleansUp s e ↔ DeadHoldsAll s e := by
  cases e with
  | cleanup pid => exact ⟨CleanupOk.deadHoldsAll, h.cleanupOk⟩
  | _ => exact Iff.rfl

end Events

/-- **The cleanups of a run do what they should exactly when each dead process was attached to every slot below
`num_barriers`.** -/
theorem cleanup_iff (events : List BarrierEvent) :
    Along BarrierRun.exec CleansUp {} events ↔ Along BarrierRun.exec DeadHoldsAll {} events :=
  Along.congr (I := Attached) (R := fun _ => True) (fun _ e h _ hdead => h.exec e hdead)
    (fun _ e h _ => h.cleansUp_iff e) _ events Attached.start fun _ _ => trivial

/-- A process dies whose default barrier is another one than that of the living process, which is erased too. -/
theorem living_barrier_erased :
    ¬ Along BarrierRun.exec CleansUp {}
      [.init 4, .register 1 "default".toList false 4, .register 2 "default (id: 1)".toList false 4, .cleanup 2] := by
  rintro ⟨-, -, -, hok, -⟩
  have h := hok.living 0 ⟨1, by decide, by decide⟩ (by decide)
  exact absurd h (by decide)

end Dlb.Barrier

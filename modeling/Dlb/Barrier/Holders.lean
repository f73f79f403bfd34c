import Dlb.Barrier.NodeBarrier
import Mathlib.Data.Set.Card

/-!
# Who holds a barrier

A barrier counts its participants, and each process knows the barriers that it holds: the default one and those of its
list.

* `Balanced`: the counters are those of a relation of who holds what; the relation grows or shrinks by one pair when a
  counter goes up or down by one (`Balanced.join`, `Balanced.create`, `Balanced.leave`, `Balanced.detachAll`);
* `BarrierInfo.Listed`: the list of a process is packed and has the default barrier not in it, whatever is added and
  removed.
-/

namespace Dlb.Barrier

open List Lib

variable {π : Type*}

/-! ## Counters and holders -/

def holders (held : π → ℕ → Prop) (i : ℕ) : Set π := {p | held p i}

@[simp] theorem mem_holders {held : π → ℕ → Prop} {p : π} {i : ℕ} : p ∈ holders held i ↔ held p i := Iff.rfl

/-- The participants of each barrier are the processes that hold it, and no two barriers have one name. -/
structure Balanced (d : BarrierShmem) (held : π → ℕ → Prop) : Prop where
  wellFormed : d.WellFormed
  finite : ∀ i, (holders held i).Finite
  counted : ∀ i, (slot d.barriers i).participants = (holders held i).ncard
  short : ∀ i, (slot d.barriers i).name.take (barrierNameMax - 1) = (slot d.barriers i).name
  named : ∀ i j, (slot d.barriers i).initialized = true → (slot d.barriers j).initialized = true →
    (slot d.barriers i).name = (slot d.barriers j).name → i = j

section Balanced

variable {d e : BarrierShmem} {held held' : π → ℕ → Prop} {p : π} {i size : ℕ} {name : List Char} {lewi : Bool}

theorem Balanced.init : Balanced (π := π) {} fun _ _ => False where
  wellFormed := .init
  finite := fun _ => Set.finite_empty
  counted := fun _ => Set.ncard_empty _ |>.symm
  short := fun _ => rfl
  named := nofun

theorem Balanced.initialized (h : Balanced d held) (hp : held p i) : (slot d.barriers i).initialized = true := by
  rw [← h.wellFormed.participants_pos_iff, h.counted]
  exact (Set.ncard_pos (h.finite i)).mpr ⟨p, hp⟩

theorem Balanced.gain (h : Balanced d held) (hp : ¬ held p i) (hheld : ∀ q j, held' q j ↔ held q j ∨ q = p ∧ j = i)
    (hcount : ∀ j, (slot e.barriers j).participants = (slot d.barriers j).participants + if j = i then 1 else 0)
    (j : ℕ) : (holders held' j).Finite ∧ (slot e.barriers j).participants = (holders held' j).ncard := by
  obtain rfl | hne := eq_or_ne j i
  · have hset : holders held' j = insert p (holders held j) := by
      ext q
      rw [mem_holders, Set.mem_insert_iff, mem_holders, hheld, or_comm]
      exact or_congr_left (and_iff_left rfl)
    have hfresh : p ∉ holders held j := hp
    rw [hset, hcount, if_pos rfl, h.counted, Set.ncard_insert_of_notMem hfresh (h.finite j)]
    exact ⟨(h.finite j).insert p, rfl⟩
  · have hset : holders held' j = holders held j := by
      ext q
      rw [mem_holders, mem_holders, hheld]
      exact or_iff_left fun hq => hne hq.2
    rw [hset, hcount, if_neg hne, h.counted]
    exact ⟨h.finite j, rfl⟩

theorem Balanced.lose (h : Balanced d held) (hp : held p i) (hheld : ∀ q j, held' q j ↔ held q j ∧ ¬ (q = p ∧ j = i))
    (hcount : ∀ j, (slot e.barriers j).participants = (slot d.barriers j).participants - if j = i then 1 else 0)
    (j : ℕ) : (holders held' j).Finite ∧ (slot e.barriers j).participants = (holders held' j).ncard := by
  obtain rfl | hne := eq_or_ne j i
  · have hset : holders held' j = holders held j \ {p} := by
      ext q
      rw [mem_holders, Set.mem_sdiff, mem_holders, Set.mem_singleton_iff, hheld]
      exact and_congr_right fun _ => not_congr (and_iff_left rfl)
    have hmem : p ∈ holders held j := hp
    rw [hset, hcount, if_pos rfl, h.counted, Set.ncard_sdiff_singleton_of_mem hmem]
    exact ⟨(h.finite j).sdiff, rfl⟩
  · have hset : holders held' j = holders held j := by
      ext q
      rw [mem_holders, mem_holders, hheld]
      exact and_iff_left fun hq => hne hq.2
    rw [hset, hcount, if_neg hne, h.counted]
    exact ⟨h.finite j, rfl⟩

theorem Balanced.join (h : Balanced d held) (hinit : (slot d.barriers i).initialized = true) (hp : ¬ held p i)
    (hheld : ∀ q j, held' q j ↔ held q j ∨ q = p ∧ j = i) : Balanced (d.join i) held' := by
  have hlt := lt_of_initialized hinit
  have hgain := h.gain (e := d.join i) hp hheld fun j => by
    rw [slot_join hlt]
    split
    · rename_i hj
      rw [hj]
    · rfl
  have hname : ∀ j, (slot (d.join i).barriers j).name = (slot d.barriers j).name ∧
      (slot (d.join i).barriers j).initialized = (slot d.barriers j).initialized := by
    intro j
    rw [slot_join hlt]
    split
    · rename_i hj
      rw [hj]
      exact ⟨rfl, rfl⟩
    · exact ⟨rfl, rfl⟩
  refine ⟨h.wellFormed.join hinit, fun j => (hgain j).1, fun j => (hgain j).2, fun j => ?_, fun j k hj hk hjk => ?_⟩
  · rw [(hname j).1]
    exact h.short j
  · rw [(hname j).2] at hj
    rw [(hname k).2] at hk
    rw [(hname j).1, (hname k).1] at hjk
    exact h.named j k hj hk hjk

theorem Balanced.not_held (h : Balanced d held) (hplace : d.place size = some i) : ¬ held p i := by
  intro hp
  have hinit := h.initialized hp
  rw [(of_decide_eq_true (BarrierShmem.place_some hplace).2).2] at hinit
  exact nomatch hinit

theorem Balanced.create (h : Balanced d held) (hplace : d.place size = some i) (hfind : d.find name = none)
    (hheld : ∀ q j, held' q j ↔ held q j ∨ q = p ∧ j = i) : Balanced (d.write i (.create name lewi)) held' := by
  obtain ⟨hle, hempty⟩ := BarrierShmem.place_some hplace
  have hnew : ∀ j, (slot d.barriers j).initialized = true →
      (slot d.barriers j).name ≠ name.take (barrierNameMax - 1) := by
    intro j hj hname
    have hnot := of_decide_eq_false (BarrierShmem.find_none hfind j)
    exact hnot ⟨h.wellFormed.pos j hj, hj, (h.short j).trans hname⟩
  have hgain := h.gain (e := d.write i (.create name lewi)) (h.not_held hplace) hheld fun j => by
    rw [slot_write hle]
    split
    · rename_i hj
      rw [hj, (of_decide_eq_true hempty).1]
      rfl
    · rfl
  refine ⟨h.wellFormed.create hplace, fun j => (hgain j).1, fun j => (hgain j).2, fun j => ?_, fun j k hj hk hjk => ?_⟩
  · rw [slot_write hle]
    split
    · exact take_take.trans (by rw [Nat.min_self]; rfl)
    · exact h.short j
  · rw [slot_write hle] at hj hk
    rw [slot_write hle, slot_write hle] at hjk
    by_cases hji : j = i
    · by_cases hki : k = i
      · exact hji.trans hki.symm
      · rw [if_neg hki] at hk
        rw [if_pos hji, if_neg hki] at hjk
        exact absurd hjk.symm (hnew k hk)
    · rw [if_neg hji] at hj
      by_cases hki : k = i
      · rw [if_neg hji, if_pos hki] at hjk
        exact absurd hjk (hnew j hj)
      · rw [if_neg hki] at hk
        rw [if_neg hji, if_neg hki] at hjk
        exact h.named j k hj hk hjk

theorem Balanced.leave (h : Balanced d held) (hp : held p i) (hheld : ∀ q j, held' q j ↔ held q j ∧ ¬ (q = p ∧ j = i)) :
    Balanced (d.leave i) held' := by
  have hinit := h.initialized hp
  have hslot := fun j => h.wellFormed.slot_leave (j := j) hinit
  have hlose := h.lose (e := d.leave i) hp hheld fun j => by
    rw [hslot]
    by_cases hj : j = i
    · rw [if_pos hj, if_pos hj, hj]
      split
      · rename_i hlast
        exact hlast.symm
      · rfl
    · rw [if_neg hj, if_neg hj]
      rfl
  have hname : ∀ j, (slot (d.leave i).barriers j).initialized = true →
      (slot d.barriers j).initialized = true ∧ (slot (d.leave i).barriers j).name = (slot d.barriers j).name := by
    intro j hj
    rw [hslot] at hj ⊢
    by_cases hji : j = i
    · rw [if_pos hji] at hj ⊢
      split at hj
      · exact nomatch hj
      · rename_i hmore
        rw [if_neg hmore, hji]
        exact ⟨hinit, rfl⟩
    · rw [if_neg hji] at hj ⊢
      exact ⟨hj, rfl⟩
  have hwf := h.wellFormed.leave hinit
  refine ⟨hwf, fun j => (hlose j).1, fun j => (hlose j).2, fun j => ?_, fun j k hj hk hjk => ?_⟩
  · cases hj : (slot (d.leave i).barriers j).initialized with
    | false =>
      rw [hwf.zero j hj]
      rfl
    | true =>
      rw [(hname j hj).2]
      exact h.short j
  · rw [(hname j hj).2, (hname k hk).2] at hjk
    exact h.named j k (hname j hj).1 (hname k hk).1 hjk

theorem Balanced.detach_held (h : Balanced d held) (hp : held p i) :
    d.shmemBarrierDetach i = (d.leave i, .ok ((slot d.barriers i).participants - 1)) := by
  have hinit := h.initialized hp
  have hpos := h.wellFormed.pos i hinit
  rw [BarrierShmem.shmemBarrierDetach, if_neg]
  rintro (hno | hzero)
  · exact nomatch hinit.symm.trans hno
  · omega

theorem Balanced.detachAll : ∀ (l : List (Option ℕ)) {d : BarrierShmem} {held held' : π → ℕ → Prop}, Balanced d held →
    (∀ i, some i ∈ l → held p i) → (l.filterMap id).Nodup → (∀ q j, held' q j ↔ held q j ∧ ¬ (q = p ∧ some j ∈ l)) →
    Balanced (l.foldl (fun d b => (d.detachPointer b).1) d) held'
  | [], _, held, held', h, _, _, hheld => by
    have heq : held' = held := by
      funext q j
      rw [hheld q j, eq_iff_iff]
      exact and_iff_left fun hq => not_mem_nil hq.2
    rw [heq]
    exact h
  | none :: l, _, _, _, h, hp, hnodup, hheld => by
    refine Balanced.detachAll l h (fun i hi => hp i (mem_cons_of_mem _ hi)) hnodup fun q j => ?_
    rw [hheld q j, mem_cons]
    simp
  | some i :: l, d, held, held', h, hp, hnodup, hheld => by
    obtain ⟨hi, hnodup⟩ := nodup_cons.mp hnodup
    have hpi := hp i mem_cons_self
    have hnot : some i ∉ l := fun hmem => hi (mem_filterMap.mpr ⟨some i, hmem, rfl⟩)
    rw [foldl_cons, BarrierShmem.detachPointer, h.detach_held hpi]
    refine Balanced.detachAll l (h.leave hpi fun q j => Iff.rfl) (fun j hj => ⟨hp j (mem_cons_of_mem _ hj), ?_⟩)
      hnodup fun q j => ?_
    · rintro ⟨-, rfl⟩
      exact hnot hj
    · rw [hheld q j, mem_cons, Option.some.injEq, and_assoc, ← not_or, ← and_or_left]

end Balanced

/-! ## The barriers of a process -/

/-- A process holds a barrier as its default one or in its list. -/
def BarrierInfo.Holds (info : BarrierInfo) (i : ℕ) : Prop := info.defaultBarrier = some i ∨ some i ∈ info.barrierList

/-- The list has different barriers one behind the other, the default one not among them. -/
def BarrierInfo.Listed (info : BarrierInfo) : Prop :=
  ∃ (l : List ℕ) (n : ℕ), info.barrierList = packed none (l.map some) n ∧ l.Nodup ∧
    ∀ b, info.defaultBarrier = some b → b ∉ l

section Info

variable {info : BarrierInfo} {b : ℕ} {l : List ℕ} {n : ℕ}

theorem none_not_mem_map (l : List ℕ) : none ∉ l.map some := by
  intro h
  obtain ⟨b, -, hb⟩ := mem_map.mp h
  exact nomatch hb

theorem mem_packed_some : some b ∈ packed none (l.map some) n ↔ b ∈ l := by
  rw [mem_packed (Option.some_ne_none b), mem_map_of_injective (Option.some_injective ℕ)]

theorem filterMap_packed : (packed none (l.map some) n).filterMap id = l := by
  rw [packed, filterMap_append, filterMap_map]
  simp

theorem BarrierInfo.Listed.isListed (h : info.Listed) : info.isListed b = true ↔ some b ∈ info.barrierList := by
  obtain ⟨l, n, hlist, -, -⟩ := h
  rw [BarrierInfo.isListed, BarrierInfo.position, decide_eq_true_iff, hlist,
    packed_getElem?_search (none_not_mem_map l) (Option.some_ne_none b), mem_packed_some,
    mem_map_of_injective (Option.some_injective ℕ)]

theorem BarrierInfo.add_full (hfull : none ∉ info.barrierList) : info.add b = info := by
  have hidx : info.barrierList.findIdx (· = none) = info.barrierList.length :=
    findIdx_eq_length.mpr fun x hx => decide_eq_false fun heq => hfull (heq ▸ hx)
  rw [BarrierInfo.add, hidx, set_eq_of_length_le (Nat.le_refl _)]

theorem BarrierInfo.Listed.add_list (h : info.Listed) (hroom : none ∈ info.barrierList) :
    ∃ (l : List ℕ) (n : ℕ), info.barrierList = packed none (l.map some) (n + 1) ∧ l.Nodup ∧
      (∀ c, info.defaultBarrier = some c → c ∉ l) ∧ (info.add b).barrierList = packed none ((l ++ [b]).map some) n := by
  obtain ⟨l, n, hlist, hnodup, hdefault⟩ := h
  cases n with
  | zero =>
    rw [hlist, packed, replicate_zero, append_nil] at hroom
    exact absurd hroom (none_not_mem_map l)
  | succ n =>
    refine ⟨l, n, hlist, hnodup, hdefault, ?_⟩
    rw [BarrierInfo.add]
    rw [hlist, packed_findIdx (none_not_mem_map l), packed_set, map_append]
    rfl

theorem BarrierInfo.Listed.add_holds (h : info.Listed) (hroom : none ∈ info.barrierList) (j : ℕ) :
    (info.add b).Holds j ↔ info.Holds j ∨ j = b := by
  obtain ⟨l, n, hlist, -, -, hadd⟩ := h.add_list hroom (b := b)
  rw [BarrierInfo.Holds, BarrierInfo.Holds, hadd, hlist, mem_packed_some, mem_packed_some, mem_append,
    mem_singleton, or_assoc]
  rfl

theorem BarrierInfo.Listed.add (h : info.Listed) (hroom : none ∈ info.barrierList) (hnew : ¬ info.Holds b) :
    (info.add b).Listed := by
  obtain ⟨l, n, hlist, hnodup, hdefault, hadd⟩ := h.add_list hroom (b := b)
  have hb : b ∉ l := fun hb => hnew (.inr (by rw [hlist, mem_packed_some]; exact hb))
  refine ⟨l ++ [b], n, hadd, ?_, fun c hc hmem => ?_⟩
  · exact List.Nodup.append hnodup (nodup_singleton b) (disjoint_singleton.mpr hb)
  · obtain hmem | hmem := mem_append.mp hmem
    · exact hdefault c hc hmem
    · exact hnew (.inl (mem_singleton.mp hmem ▸ hc))

theorem BarrierInfo.Listed.remove (h : info.Listed) (hb : some b ∈ info.barrierList) :
    (info.remove b).Listed ∧ ∀ j, (info.remove b).Holds j ↔ info.Holds j ∧ j ≠ b := by
  obtain ⟨l, n, hlist, hnodup, hdefault⟩ := h
  have hmem : b ∈ l := by rwa [hlist, mem_packed_some] at hb
  have hremove : (info.remove b).barrierList = packed none ((l.erase b).map some) (n + 1) := by
    rw [BarrierInfo.remove, BarrierInfo.position]
    rw [hlist, packed_eraseIdx (none_not_mem_map l) (mem_map_of_mem hmem)]
    exact congrArg (packed none · (n + 1)) (map_erase (Option.some_injective ℕ) l).symm
  refine ⟨⟨l.erase b, n + 1, hremove, hnodup.erase b, fun c hc hc' => ?_⟩, fun j => ?_⟩
  · exact hdefault c hc (mem_of_mem_erase hc')
  · rw [BarrierInfo.Holds, BarrierInfo.Holds, hremove, hlist, mem_packed_some, mem_packed_some, hnodup.mem_erase_iff]
    have hne : info.defaultBarrier = some j → j ≠ b := by
      rintro hj rfl
      exact hdefault j hj hmem
    exact ⟨fun hj => hj.elim (fun hj => ⟨.inl hj, hne hj⟩) fun hj => ⟨.inr hj.2, hj.1⟩,
      fun hj => hj.1.elim .inl fun hl => .inr ⟨hj.2, hl⟩⟩

theorem BarrierInfo.Listed.dropDefault (h : info.Listed) (hb : info.defaultBarrier = some b) :
    ({ info with defaultBarrier := none } : BarrierInfo).Listed ∧
      ∀ j, ({ info with defaultBarrier := none } : BarrierInfo).Holds j ↔ info.Holds j ∧ j ≠ b := by
  obtain ⟨l, n, hlist, hnodup, hdefault⟩ := h
  refine ⟨⟨l, n, hlist, hnodup, nofun⟩, fun j => ?_⟩
  have hne : some j ∈ info.barrierList → j ≠ b := by
    rintro hj rfl
    rw [hlist, mem_packed_some] at hj
    exact hdefault j hb hj
  have hsame : info.defaultBarrier = some j → j = b := fun hj => Option.some.inj (hj.symm.trans hb)
  exact ⟨fun hj => hj.elim nofun fun hj => ⟨.inr hj, hne hj⟩,
    fun hj => hj.1.elim (fun hd => absurd (hsame hd) hj.2) .inr⟩

theorem BarrierInfo.Listed.setDefault (h : info.Listed) (hnone : info.defaultBarrier = none)
    (hnew : some b ∉ info.barrierList) :
    ({ info with defaultBarrier := some b } : BarrierInfo).Listed ∧
      ∀ j, ({ info with defaultBarrier := some b } : BarrierInfo).Holds j ↔ info.Holds j ∨ j = b := by
  obtain ⟨l, n, hlist, hnodup, -⟩ := h
  refine ⟨⟨l, n, hlist, hnodup, fun c hc hmem => hnew ?_⟩, fun j => ?_⟩
  · rw [hlist, mem_packed_some, Option.some.inj hc]
    exact hmem
  · have hno : ¬ info.defaultBarrier = some j := by rw [hnone]; exact nofun
    refine (or_comm.trans (or_congr (or_iff_right hno).symm ?_))
    exact ⟨fun hj => (Option.some.inj hj).symm, fun hj => congrArg some hj.symm⟩

end Info

end Dlb.Barrier

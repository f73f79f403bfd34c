import Dlb.Barrier.Holders
import Dlb.Lib.Run

/-!
# Who takes part in a barrier

The processes hold barriers, and the shared memory counts who holds each. `Member` says that the counters are those of
the processes and that their lists are in order.

* `Member.exec`: every call keeps that, unless a process joins a barrier that it holds already or for which its list has
  no room.
-/

namespace Dlb.Barrier

open List Lib

variable {π : Type*}

/-! ## All processes -/

namespace NodeState

variable (s : NodeState π)

def Held (p : π) (i : ℕ) : Prop := ∃ info ∈ s.info p, info.Holds i

structure Member : Prop where
  balanced : Balanced s.shmem s.Held
  listed : ∀ p, ∀ info ∈ s.info p, info.Listed
  fresh : s.shmem.initialized = false → ∀ p, s.info p = none

/-- A list without duplicates and without a hole before its last entry, for every process; as many participants in
each barrier as there are processes that hold it; and different names. -/
structure MembershipOk : Prop where
  counted : ∀ i, (slot s.shmem.barriers i).initialized = true →
    (slot s.shmem.barriers i).participants = (holders s.Held i).ncard
  nodup : ∀ p, ∀ info ∈ s.info p, (info.barrierList.filterMap id).Nodup
  noHole : ∀ p, ∀ info ∈ s.info p, ∀ (i j b : ℕ), i ≤ j → info.barrierList[j]? = some (some b) →
    info.barrierList[i]? ≠ some none
  named : ∀ i j, (slot s.shmem.barriers i).initialized = true → (slot s.shmem.barriers j).initialized = true →
    (slot s.shmem.barriers i).name = (slot s.shmem.barriers j).name → i = j

variable {s}

theorem Member.ok (h : s.Member) : s.MembershipOk where
  counted := fun i _ => h.balanced.counted i
  nodup := by
    intro p info hinfo
    obtain ⟨l, n, hlist, hnodup, -⟩ := h.listed p info hinfo
    rwa [hlist, filterMap_packed]
  noHole := by
    intro p info hinfo i j b hij hj
    obtain ⟨l, n, hlist, -, -⟩ := h.listed p info hinfo
    rw [hlist, packed] at hj ⊢
    have hlt : j < (l.map some).length := by
      by_contra hle
      rw [getElem?_append_right (Nat.le_of_not_lt hle)] at hj
      cases eq_of_mem_replicate (mem_of_getElem? hj)
    rw [getElem?_append_left (Nat.lt_of_le_of_lt hij hlt)]
    exact fun hi => none_not_mem_map l (mem_of_getElem? hi)
  named := h.balanced.named

theorem Member.init : Member (π := π) {} where
  balanced := by
    have hheld : Held ({} : NodeState π) = fun _ _ => False := by
      funext p i
      exact eq_false fun h => nomatch h
    rw [hheld]
    exact .init
  listed := nofun
  fresh := fun _ _ => rfl

/-! ## One call -/

section Calls

variable {d : BarrierShmem} {x : Option BarrierInfo} {info info' : BarrierInfo} {p q : π} {i j : ℕ}

theorem not_registered {name : List Char} (h : info.Listed)
    (hno : s.registered info name = none) (hfind : s.shmem.find name = some i) : some i ∉ info.barrierList := by
  obtain ⟨l, n, hlist, -, -⟩ := h
  intro hmem
  have hl : i ∈ l := by rwa [hlist, mem_packed_some] at hmem
  obtain ⟨c, l', rfl⟩ := exists_cons_of_ne_nil (ne_nil_of_mem hl)
  have hfirst : info.barrierList[0]? = some (some c) := by rw [hlist]; rfl
  rw [registered, hfirst, hfind] at hno
  exact absurd hmem (by simpa using hno)

theorem held_of_some (hinfo : s.info p = some info) : s.Held p j ↔ info.Holds j := by
  simp [Held, hinfo]

theorem Member.initialized (h : s.Member) (hinfo : s.info p = some info) : s.shmem.initialized = true := by
  by_contra hno
  exact nomatch hinfo.symm.trans (h.fresh (by simpa using hno) p)

theorem Member.opened (h : s.Member) (size : ℕ) : (s.shmem.shmemBarrierInit size).1.initialized = true ∧
    Balanced (s.shmem.shmemBarrierInit size).1 s.Held := by
  rw [BarrierShmem.shmemBarrierInit]
  split
  · rename_i hinit
    exact ⟨hinit, h.balanced⟩
  · rename_i hno
    have hheld : s.Held = fun _ _ => False := by
      funext p i
      refine eq_false ?_
      rintro ⟨info, hinfo, -⟩
      exact nomatch (h.fresh (by simpa using hno) p).symm.trans hinfo
    rw [hheld]
    exact ⟨rfl, { Balanced.init with wellFormed := { BarrierShmem.WellFormed.init with } }⟩

variable [DecidableEq π]

theorem held_write : (s.write p d x).Held q j ↔ if q = p then ∃ info ∈ x, info.Holds j else s.Held q j := by
  unfold Held write
  dsimp only
  rw [Function.update_apply]
  split <;> rfl

theorem held_gain (hx : ∀ j, (∃ info ∈ x, info.Holds j) ↔ s.Held p j ∨ j = i) (q : π) (j : ℕ) :
    (s.write p d x).Held q j ↔ s.Held q j ∨ q = p ∧ j = i := by
  rw [held_write]
  split
  · rename_i hq
    rw [hq, hx]
    exact or_congr_right (and_iff_right rfl).symm
  · rename_i hq
    exact (or_iff_left fun h => hq h.1).symm

theorem held_lose (hx : ∀ j, (∃ info ∈ x, info.Holds j) ↔ s.Held p j ∧ j ≠ i) (q : π) (j : ℕ) :
    (s.write p d x).Held q j ↔ s.Held q j ∧ ¬ (q = p ∧ j = i) := by
  rw [held_write]
  split
  · rename_i hq
    rw [hq, hx]
    exact and_congr_right fun _ => not_congr (and_iff_right rfl).symm
  · rename_i hq
    exact (and_iff_left fun h => hq h.1).symm

theorem held_same (hx : ∀ j, (∃ info ∈ x, info.Holds j) ↔ s.Held p j) : (s.write p d x).Held = s.Held := by
  funext q j
  rw [held_write, eq_iff_iff]
  split
  · rename_i hq
    rw [hq, hx]
  · rfl

theorem Member.write (h : s.Member) (hd : d.initialized = true) (hx : ∀ info ∈ x, info.Listed)
    (hbalanced : Balanced d (s.write p d x).Held) : (s.write p d x).Member where
  balanced := hbalanced
  listed := by
    intro q info hinfo
    unfold NodeState.write at hinfo
    dsimp only at hinfo
    rw [Function.update_apply] at hinfo
    split at hinfo
    · exact hx info hinfo
    · exact h.listed q info hinfo
  fresh := fun hno => nomatch hd.symm.trans hno

theorem Member.not_ok (h : s.Member) (hsame : s.Held = (s.write p d x).Held)
    (hinit : (slot d.barriers i).initialized = true)
    (hcount : (slot d.barriers i).participants = (slot s.shmem.barriers i).participants + 1) :
    ¬ (s.write p d x).MembershipOk := by
  intro hok
  have hnow : (slot d.barriers i).participants = (holders (s.write p d x).Held i).ncard := hok.counted i hinit
  rw [hcount, h.balanced.counted, hsame] at hnow
  omega

theorem write_self (hinfo : s.info p = some info) : s.write p s.shmem (some info) = s := by
  rw [write, ← hinfo, Function.update_eq_self]

theorem Member.join (h : s.Member) (hinfo : s.info p = some info)
    (hinit : (slot s.shmem.barriers i).initialized = true) (hnew : ¬ info.Holds i) (hlisted : info'.Listed)
    (hholds : ∀ j, info'.Holds j ↔ info.Holds j ∨ j = i) : (s.write p (s.shmem.join i) (some info')).Member := by
  refine h.write (h.initialized hinfo) (fun _ h => Option.some.inj h ▸ hlisted) (h.balanced.join (p := p) hinit ?_ ?_)
  · exact fun hp => hnew ((held_of_some hinfo).mp hp)
  · exact held_gain fun j => by simp [hholds, held_of_some hinfo]

theorem Member.leave (h : s.Member) (hinfo : s.info p = some info) (hold : info.Holds i) (hlisted : info'.Listed)
    (hholds : ∀ j, info'.Holds j ↔ info.Holds j ∧ j ≠ i) :
    s.shmem.shmemBarrierDetach i = (s.shmem.leave i, .ok ((slot s.shmem.barriers i).participants - 1)) ∧
      (s.write p (s.shmem.leave i) (some info')).Member := by
  have hp : s.Held p i := (held_of_some hinfo).mpr hold
  have hinit : (s.shmem.leave i).initialized = s.shmem.initialized := by
    rw [BarrierShmem.leave]
    split <;> rfl
  refine ⟨h.balanced.detach_held hp, h.write (hinit.trans (h.initialized hinfo))
    (fun _ h => Option.some.inj h ▸ hlisted) (h.balanced.leave hp ?_)⟩
  exact held_lose fun j => by simp [hholds, held_of_some hinfo]

theorem Member.join_not_ok (h : s.Member) (hinfo : s.info p = some info)
    (hinit : (slot s.shmem.barriers i).initialized = true) (hholds : ∀ j, info'.Holds j ↔ info.Holds j) :
    ¬ (s.write p (s.shmem.join i) (some info')).MembershipOk := by
  have hslot : slot (s.shmem.join i).barriers i = _ := slot_join (lt_of_initialized hinit)
  rw [if_pos rfl] at hslot
  refine h.not_ok (held_same fun j => ?_).symm (i := i) (by rw [hslot]; exact hinit) (by rw [hslot])
  simp [hholds, held_of_some hinfo]

theorem Member.join_add (h : s.Member) (hinfo : s.info p = some info)
    (hinit : (slot s.shmem.barriers i).initialized = true) (hnot : some i ∉ info.barrierList) :
    (info.defaultBarrier ≠ some i → none ∈ info.barrierList →
      (s.write p (s.shmem.join i) (some (info.add i))).Member) ∧
    ((s.write p (s.shmem.join i) (some (info.add i))).MembershipOk →
      info.defaultBarrier ≠ some i ∧ none ∈ info.barrierList) := by
  have hlisted : info.Listed := h.listed p info hinfo
  refine ⟨fun hdefault hroom => ?_, fun hok => ?_⟩
  · have hnew : ¬ info.Holds i := not_or.mpr ⟨hdefault, hnot⟩
    exact h.join hinfo hinit hnew (hlisted.add hroom hnew) (hlisted.add_holds hroom)
  · have hroom : none ∈ info.barrierList := by
      by_contra hfull
      rw [BarrierInfo.add_full hfull] at hok
      exact h.join_not_ok hinfo hinit (fun _ => Iff.rfl) hok
    refine ⟨fun hdefault => h.join_not_ok hinfo hinit (fun j => ?_) hok, hroom⟩
    rw [hlisted.add_holds hroom]
    exact or_iff_left_of_imp fun hj => .inl (hj ▸ hdefault)

theorem Member.create_add (h : s.Member) (hinfo : s.info p = some info) {name : List Char} {size : ℕ} (lewi : Bool)
    (hfind : s.shmem.find name = none) (hplace : s.shmem.place size = some i) :
    (none ∈ info.barrierList → (s.write p (s.shmem.write i (.create name lewi)) (some (info.add i))).Member) ∧
    ((s.write p (s.shmem.write i (.create name lewi)) (some (info.add i))).MembershipOk →
      none ∈ info.barrierList) := by
  have hlisted : info.Listed := h.listed p info hinfo
  refine ⟨fun hroom => ?_, fun hok => ?_⟩
  · have hnew : ¬ info.Holds i := fun hold => h.balanced.not_held hplace ((held_of_some hinfo).mpr hold)
    refine h.write (h.initialized hinfo) (fun _ h => Option.some.inj h ▸ hlisted.add hroom hnew)
      (h.balanced.create (p := p) hplace hfind ?_)
    exact held_gain fun j => by simp [hlisted.add_holds hroom, held_of_some hinfo]
  · by_contra hfull
    rw [BarrierInfo.add_full hfull] at hok
    obtain ⟨hle, hempty⟩ := BarrierShmem.place_some hplace
    have hslot : slot (s.shmem.write i (.create name lewi)).barriers i = _ := slot_write hle
    rw [if_pos rfl] at hslot
    refine h.not_ok (held_same fun j => ?_).symm (i := i) (by rw [hslot]; rfl) ?_ hok
    · simp [held_of_some hinfo]
    · rw [hslot, (of_decide_eq_true hempty).1]
      rfl

/-- The process takes part in nothing new without noticing: no barrier that it holds is joined a second time, and none
is joined without room in the list. -/
def NoDouble (opts : π → BarrierOptions) (s : NodeState π) : π × NodeCall → Prop
  | (p, .register name _) => ∀ info ∈ s.info p, s.registered info name = none →
      (∀ i ∈ s.shmem.find name, info.defaultBarrier ≠ some i) ∧
        ((s.shmem.find name).isSome ∨ (s.shmem.place (opts p).maxBarriers).isSome → none ∈ info.barrierList)
  | (p, .attach none) => ∀ info ∈ s.info p, info.defaultBarrier = none →
      ∀ i ∈ s.shmem.find info.defaultBarrierName, some i ∉ info.barrierList
  | (p, .attach (some b)) => ∀ info ∈ s.info p, info.defaultBarrier ≠ some b → some b ∉ info.barrierList →
      (slot s.shmem.barriers b).initialized = true → none ∈ info.barrierList
  | _ => True

variable {opts : π → BarrierOptions}

theorem Member.register (h : s.Member) (name : List Char) (flags : BarrierFlags) :
    (s.NoDouble opts (p, .register name flags) → (s.nodeBarrierRegister opts p name flags).1.Member) ∧
    ((s.nodeBarrierRegister opts p name flags).1.MembershipOk → s.NoDouble opts (p, .register name flags)) := by
  cases hinfo : s.info p with
  | none =>
    rw [nodeBarrierRegister, hinfo]
    exact ⟨fun _ => h, fun _ info hi => nomatch hinfo.symm.trans hi⟩
  | some info =>
    cases hreg : s.registered info name with
    | some b =>
      rw [nodeBarrierRegister, hinfo]
      dsimp only
      rw [hreg]
      refine ⟨fun _ => h, fun _ info' hi hno => ?_⟩
      obtain rfl := Option.some.inj (hinfo.symm.trans hi)
      exact nomatch hreg.symm.trans hno
    | none =>
      have hiff : s.NoDouble opts (p, .register name flags) ↔ (∀ i ∈ s.shmem.find name, info.defaultBarrier ≠ some i) ∧
          ((s.shmem.find name).isSome ∨ (s.shmem.place (opts p).maxBarriers).isSome → none ∈ info.barrierList) := by
        refine ⟨fun hno => hno info hinfo hreg, fun hno info' hi _ => ?_⟩
        obtain rfl := Option.some.inj (hinfo.symm.trans hi)
        exact hno
      rw [hiff, nodeBarrierRegister, hinfo]
      dsimp only
      rw [hreg]
      obtain ⟨i, hfind, heq⟩ | ⟨i, hfind, hplace, heq⟩ | ⟨hfind, hplace, heq⟩ := s.shmem.register_cases name
        (parseLewiBarrier name (opts p) flags) (opts p).maxBarriers
      · rw [heq, hfind]
        have hnamed := (BarrierShmem.find_some hfind).2
        have hadd := h.join_add hinfo (of_decide_eq_true hnamed).2.1 (not_registered (h.listed p info hinfo) hreg hfind)
        simpa using hadd
      · rw [heq, hfind, hplace]
        have hadd := h.create_add hinfo (parseLewiBarrier name (opts p) flags) hfind hplace
        simpa using hadd
      · rw [heq, hfind, hplace]
        rw [write_self hinfo]
        exact ⟨fun _ => h, fun _ => ⟨nofun, nofun⟩⟩

theorem Member.attachDefault (h : s.Member) :
    (s.NoDouble opts (p, .attach none) → (s.nodeBarrierAttach opts p none).1.Member) ∧
    ((s.nodeBarrierAttach opts p none).1.MembershipOk → s.NoDouble opts (p, .attach none)) := by
  cases hinfo : s.info p with
  | none =>
    rw [nodeBarrierAttach, hinfo]
    exact ⟨fun _ => h, fun _ info hi => by cases hinfo.symm.trans hi⟩
  | some info =>
    rw [nodeBarrierAttach, hinfo]
    dsimp only
    cases hdefault : info.defaultBarrier with
    | some b =>
      refine ⟨fun _ => h, fun _ info' hi hno => ?_⟩
      obtain rfl := Option.some.inj (hinfo.symm.trans hi)
      cases hdefault.symm.trans hno
    | none =>
      have hiff : s.NoDouble opts (p, .attach none) ↔
          ∀ i ∈ s.shmem.find info.defaultBarrierName, some i ∉ info.barrierList := by
        refine ⟨fun hno => hno info hinfo hdefault, fun hno info' hi _ => ?_⟩
        obtain rfl := Option.some.inj (hinfo.symm.trans hi)
        exact hno
      have hlisted : info.Listed := h.listed p info hinfo
      rw [hiff]
      rw [registerDefault]
      obtain ⟨i, hfind, heq⟩ | ⟨i, hfind, hplace, heq⟩ | ⟨hfind, hplace, heq⟩ :=
        s.shmem.register_cases info.defaultBarrierName (parseLewiBarrier defaultName (opts p) .lewiOff)
          (opts p).maxBarriers
      · rw [heq, hfind]
        have hinit := (of_decide_eq_true (BarrierShmem.find_some hfind).2).2.1
        refine ⟨fun hno => ?_, fun hok j hj hmem => ?_⟩
        · have hnot : some i ∉ info.barrierList := hno i rfl
          obtain ⟨hlisted', hholds⟩ := hlisted.setDefault hdefault hnot
          refine h.join hinfo hinit (not_or.mpr ⟨?_, hnot⟩) hlisted' hholds
          rw [hdefault]
          simp
        · obtain rfl := Option.some.inj hj
          refine h.join_not_ok hinfo hinit (fun k => ?_) hok
          rw [BarrierInfo.Holds, BarrierInfo.Holds, hdefault]
          refine ⟨fun hk => .inr (hk.elim (fun hk => ?_) id), fun hk => .inr (hk.resolve_left (by simp))⟩
          exact hk ▸ hmem
      · rw [heq, hfind]
        refine ⟨fun _ => ?_, fun _ => by simp⟩
        have hnew : ¬ info.Holds i := fun hold => h.balanced.not_held hplace ((held_of_some hinfo).mpr hold)
        obtain ⟨hlisted', hholds⟩ := hlisted.setDefault hdefault (not_or.mp hnew).2
        refine h.write (h.initialized hinfo) (fun _ h => Option.some.inj h ▸ hlisted')
          (h.balanced.create (p := p) hplace hfind ?_)
        exact held_gain fun j => by simp [hholds, held_of_some hinfo]
      · rw [heq, hfind]
        refine ⟨fun _ => ?_, fun _ => by simp⟩
        have hsame : ({ info with defaultBarrier := none } : BarrierInfo) = info := by rw [← hdefault]
        rw [hsame, write_self hinfo]
        exact h

theorem Member.attachNamed (h : s.Member) (b : ℕ) :
    (s.NoDouble opts (p, .attach (some b)) → (s.nodeBarrierAttach opts p (some b)).1.Member) ∧
    ((s.nodeBarrierAttach opts p (some b)).1.MembershipOk → s.NoDouble opts (p, .attach (some b))) := by
  cases hinfo : s.info p with
  | none =>
    rw [nodeBarrierAttach, hinfo]
    exact ⟨fun _ => h, fun _ info hi => nomatch hinfo.symm.trans hi⟩
  | some info =>
    have hiff : s.NoDouble opts (p, .attach (some b)) ↔ (info.defaultBarrier ≠ some b → some b ∉ info.barrierList →
        (slot s.shmem.barriers b).initialized = true → none ∈ info.barrierList) := by
      refine ⟨fun hno => hno info hinfo, fun hno info' hi => ?_⟩
      obtain rfl := Option.some.inj (hinfo.symm.trans hi)
      exact hno
    have hlisted : info.Listed := h.listed p info hinfo
    rw [hiff, nodeBarrierAttach, hinfo]
    dsimp only
    split
    · rename_i hdefault
      exact ⟨fun _ => h, fun _ hno => absurd hdefault hno⟩
    · rename_i hdefault
      split
      · rename_i hmem
        exact ⟨fun _ => h, fun _ _ hno => absurd (hlisted.isListed.mp hmem) hno⟩
      · rename_i hmem
        rw [hlisted.isListed] at hmem
        rw [BarrierShmem.shmemBarrierAttach]
        split
        · rename_i hgone
          have hno : (slot s.shmem.barriers b).initialized ≠ true := by
            intro hinit
            have hpos := h.balanced.wellFormed.pos b hinit
            rw [hinit] at hgone
            exact absurd (hgone.resolve_left nofun) (Nat.ne_of_gt hpos)
          have hself := write_self hinfo
          refine ⟨fun _ => ?_, fun _ _ _ hinit => absurd hinit hno⟩
          rw [if_neg (by exact nofun), hself]
          exact h
        · rename_i hthere
          have hinit : (slot s.shmem.barriers b).initialized = true := by simpa using (not_or.mp hthere).1
          obtain ⟨hmember, hok⟩ := h.join_add hinfo hinit hmem
          exact ⟨fun hno => hmember hdefault (hno hdefault hmem hinit), fun hnow _ _ _ => (hok hnow).2⟩

theorem Member.detach (h : s.Member) (barrier : Option ℕ) : (s.nodeBarrierDetach p barrier).1.Member := by
  cases hinfo : s.info p with
  | none =>
    rw [nodeBarrierDetach, hinfo]
    exact h
  | some info =>
    have hlisted : info.Listed := h.listed p info hinfo
    have hdrop : ∀ b, info.defaultBarrier = some b →
        s.shmem.shmemBarrierDetach b = (s.shmem.leave b, .ok ((slot s.shmem.barriers b).participants - 1)) ∧
          (s.write p (s.shmem.leave b) (some { info with defaultBarrier := none })).Member := by
      intro b hb
      obtain ⟨hlisted', hholds⟩ := hlisted.dropDefault hb
      exact h.leave hinfo (.inl hb) hlisted' hholds
    rw [nodeBarrierDetach, hinfo]
    dsimp only
    split
    · exact h
    · rename_i b hb
      obtain ⟨hdetach, hmember⟩ := hdrop b hb
      rw [hdetach]
      exact hmember
    · rename_i b
      split
      · rename_i hb
        obtain ⟨hdetach, hmember⟩ := hdrop b hb
        rw [hdetach]
        exact hmember
      · split
        · rename_i hmem
          have hmem := hlisted.isListed.mp hmem
          obtain ⟨hlisted', hholds⟩ := hlisted.remove hmem
          obtain ⟨hdetach, hmember⟩ := h.leave hinfo (.inr hmem) hlisted' hholds
          rw [hdetach]
          exact hmember
        · exact h

theorem leave_initialized (d : BarrierShmem) (i : ℕ) : (d.leave i).initialized = d.initialized := by
  rw [BarrierShmem.leave]
  split <;> rfl

theorem detachPointer_initialized (d : BarrierShmem) (b : Option ℕ) :
    (d.detachPointer b).1.initialized = d.initialized := by
  cases b with
  | none => rfl
  | some i =>
    rw [BarrierShmem.detachPointer, BarrierShmem.shmemBarrierDetach]
    split
    · rfl
    · exact leave_initialized d i

theorem detachAll_initialized : ∀ (l : List (Option ℕ)) (d : BarrierShmem),
    (l.foldl (fun d b => (d.detachPointer b).1) d).initialized = d.initialized
  | [], _ => rfl
  | b :: l, d => (detachAll_initialized l _).trans (detachPointer_initialized d b)

theorem Member.finalize (h : s.Member) : (s.nodeBarrierFinalize p).Member := by
  rw [nodeBarrierFinalize]
  cases hinfo : s.info p with
  | none => exact h
  | some info =>
    obtain ⟨l, n, hlist, hnodup, hdefault⟩ := h.listed p info hinfo
    have hmem : ∀ i, some i ∈ info.defaultBarrier :: info.barrierList ↔ s.Held p i := by
      intro i
      rw [held_of_some hinfo, mem_cons, BarrierInfo.Holds, eq_comm]
    have hall : ((info.defaultBarrier :: info.barrierList).filterMap id).Nodup := by
      rw [hlist, filterMap_cons, filterMap_packed]
      cases hb : info.defaultBarrier with
      | none => exact hnodup
      | some b => exact nodup_cons.mpr ⟨hdefault b hb, hnodup⟩
    refine h.write ((detachAll_initialized _ _).trans (h.initialized hinfo)) (by intros; contradiction)
      (h.balanced.detachAll (p := p) _ (fun i hi => (hmem i).mp hi) hall fun q j => ?_)
    rw [held_write, hmem]
    split
    · rename_i hq
      simp [hq]
    · rename_i hq
      exact (and_iff_left fun hno => hq hno.1).symm

theorem Member.initNode (h : s.Member) : (s.nodeBarrierInit opts p).Member := by
  rw [nodeBarrierInit]
  cases hinfo : s.info p with
  | some info => exact h
  | none =>
    obtain ⟨hinit, hbalanced⟩ := h.opened (opts p).maxBarriers
    have hno : ∀ j, ¬ s.Held p j := fun j ⟨info, hi, _⟩ => nomatch hinfo.symm.trans hi
    have hlisted : ∀ (name : List Char) (b : Option ℕ),
        (BarrierInfo.mk name b (replicate (opts p).maxBarriers none)).Listed := fun _ _ =>
      ⟨[], (opts p).maxBarriers, rfl, nodup_nil, fun _ _ => not_mem_nil⟩
    have hholds : ∀ (name : List Char) (b : Option ℕ) (j : ℕ),
        (BarrierInfo.mk name b (replicate (opts p).maxBarriers none)).Holds j ↔ b = some j := fun _ _ _ =>
      or_iff_left fun hj => nomatch eq_of_mem_replicate hj
    dsimp only
    rw [registerDefault]
    obtain ⟨i, hfind, heq⟩ | ⟨i, hfind, hplace, heq⟩ | ⟨hfind, hplace, heq⟩ :=
      (s.shmem.shmemBarrierInit (opts p).maxBarriers).1.register_cases (defaultBarrierName (opts p).barrierId)
        (parseLewiBarrier defaultName (opts p) .lewiOff) (opts p).maxBarriers
    all_goals
      rw [heq]
      refine h.write hinit (fun _ h => Option.some.inj h ▸ hlisted _ _) ?_
    · refine hbalanced.join (of_decide_eq_true (BarrierShmem.find_some hfind).2).2.1 (hno i) ?_
      exact held_gain fun j => by simp [hholds, hno, eq_comm]
    · refine hbalanced.create (p := p) hplace hfind ?_
      exact held_gain fun j => by simp [hholds, hno, eq_comm]
    · rw [held_same fun j => by simp [hholds, hno]]
      exact hbalanced

/-! ## Every run -/

theorem Member.exec (h : s.Member) : ∀ e, s.NoDouble opts e → (s.exec opts e).Member
  | (_, .init), _ => h.initNode
  | (_, .finalize), _ => h.finalize
  | (_, .register name flags), hno => (h.register name flags).1 hno
  | (_, .attach none), hno => h.attachDefault.1 hno
  | (_, .attach (some b)), hno => (h.attachNamed b).1 hno
  | (_, .detach barrier), _ => h.detach barrier

theorem Member.noDouble (h : s.Member) : ∀ e, (s.exec opts e).MembershipOk → s.NoDouble opts e
  | (_, .init), _ => trivial
  | (_, .finalize), _ => trivial
  | (_, .register name flags), hok => (h.register name flags).2 hok
  | (_, .attach none), hok => h.attachDefault.2 hok
  | (_, .attach (some b)), hok => (h.attachNamed b).2 hok
  | (_, .detach _), _ => trivial

/-- **Membership.** After every call of a run, each barrier has as many participants as there are processes that hold
it, the lists of the processes have neither duplicates nor holes and the names differ, if and only if no process joins
a barrier that it holds as its default one or, as the default one, one of its list, and none joins one without room. -/
theorem membership_iff (opts : π → BarrierOptions) (events : List (π × NodeCall)) :
    Along (exec opts) (fun s e => (s.exec opts e).MembershipOk) {} events ↔
      Along (exec opts) (NoDouble opts) {} events := by
  refine Along.congr (I := Member) (R := fun _ => True) (fun s e h _ hno => h.exec e hno) (fun s e h _ => ?_) {} events
    .init fun _ _ => trivial
  exact ⟨h.noDouble e, fun hno => (h.exec e hno).ok⟩

/-- A process that registers the name of its default barrier counts twice. -/
theorem membership_twice : ¬ ∀ (opts : Unit → BarrierOptions) (events : List (Unit × NodeCall)),
    Along (exec opts) (fun s e => (s.exec opts e).MembershipOk) {} events := by
  intro h
  obtain ⟨-, hok, -⟩ := h (fun _ => { maxBarriers := 4 }) [((), .init), ((), .register defaultName .lewiOff)]
  have htwo := hok.counted 0 (by decide)
  have hone : ∀ l : Set Unit, l.ncard ≤ 1 := Set.ncard_le_one_of_subsingleton
  have hle := htwo.trans_le (hone _)
  exact absurd hle (by decide)

end Calls

end NodeState

end Dlb.Barrier

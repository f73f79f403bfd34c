import Dlb.Lib.Table
import Dlb.Support.Types
import Dlb.Talp.Registration

/-!
# The shared memory of TALP

`shmem_talp.c`: the regions of all processes, in slots that are handed out one after the other. A process that leaves, or
is cleaned up after its death, leaves blank slots behind; they are not used again.

A run is of one shared memory file, with the processes that attach to it, register regions and leave, and with the
cleanups of dead processes. `ids` are the numbers that `shmem_talp__register` has returned, until the process leaves.

* `Kept`: what the slots and the returned numbers say about each other.
-/

namespace Dlb.Talp

open Function Lib

/-- `talp_region_t`, less its times. -/
structure TalpRegion where
  name : List Char := []
  pid : Pid := 0
deriving DecidableEq

/-- `shdata_t`. The memory is zeroed when created. -/
structure TalpShdata where
  initialized : Bool := false
  maxRegions : ℕ := 0
  numRegions : ℕ := 0
  talpRegion : ℕ → TalpRegion := fun _ => {}

/-- The static variables of a process: how often it is attached, and its `max_regions`. -/
structure TalpHandle where
  subprocessesAttached : ℕ := 0
  maxRegions : ℕ := 0

namespace TalpShdata

variable (s : TalpShdata) (pid : Pid) (name : List Char)

def blank : ℕ → TalpRegion := fun i => if i < s.numRegions ∧ (s.talpRegion i).pid = pid then {} else s.talpRegion i

/-- `is_shmem_empty` -/
def isShmemEmpty : Bool := ∀ i < s.numRegions, (s.talpRegion i).pid = 0

/-- `cleanup_shmem` -/
def cleanupShmem : TalpShdata :=
  if ∀ i < s.numRegions, (s.talpRegion i).pid ≠ pid → (s.talpRegion i).pid = 0 then {}
  else { s with talpRegion := s.blank pid }

def search : Option ℕ :=
  scan s.numRegions fun i => (s.talpRegion i).pid = pid ∧
    (s.talpRegion i).name.take (monitorNameMax - 1) = name.take (monitorNameMax - 1)

/-- `shmem_talp__register` with `max_regions` of the caller: the memory, and the number of the region. -/
def shmemTalpRegister (maxRegions : ℕ) : TalpShdata × Except DlbError ℕ :=
  match s.search pid name with
  | some i => (s, .ok i)
  | none =>
    if s.numRegions < maxRegions then
      ({ s with
          numRegions := s.numRegions + 1
          talpRegion :=
            update s.talpRegion s.numRegions { name := name.take (monitorNameMax - 1), pid := pid } },
        .ok s.numRegions)
    else (s, .error .errNomem)

def used : ℕ := ((Finset.range s.numRegions).filter fun i => (s.talpRegion i).pid ≠ 0).card

end TalpShdata

/-- The shared memory, and the processes attached to it. Besides, the numbers of the regions of each process. -/
structure TalpNode where
  shm : TalpShdata := {}
  attached : Finset Pid := ∅
  handle : Pid → TalpHandle := fun _ => {}
  ids : Pid → List Char → Option ℕ := fun _ _ => none

/-- What happens: a process attaches, registers a region for `pid`, or leaves for `pid`; a process cleans up after a dead
one. -/
inductive TalpEvent where
  | init (caller : Pid) (shmemSizeMultiplier : ℕ)
  | register (caller pid : Pid) (name : List Char)
  | finalize (caller pid : Pid)
  | cleanup (pid : Pid)

namespace TalpNode

variable (systemSize : ℕ) (n : TalpNode) (caller pid : Pid) (name : List Char)

/-- `open_shmem` -/
def openShmem (shmemSizeMultiplier : ℕ) : TalpNode :=
  { n with
    attached := insert caller n.attached
    handle := update n.handle caller
      (if caller ∈ n.attached then
        { n.handle caller with subprocessesAttached := (n.handle caller).subprocessesAttached + 1 }
      else { subprocessesAttached := 1, maxRegions := systemSize * shmemSizeMultiplier }) }

/-- `close_shmem`. The last process deletes the memory if it is empty. -/
def closeShmem : TalpNode :=
  let handle : TalpHandle :=
    { n.handle caller with subprocessesAttached := (n.handle caller).subprocessesAttached - 1 }
  if handle.subprocessesAttached = 0 then
    { n with
      shm := if n.shm.isShmemEmpty ∧ n.attached.erase caller = ∅ then {} else n.shm
      attached := n.attached.erase caller
      handle := update n.handle caller {} }
  else { n with handle := update n.handle caller handle }

/-- `shmem_talp__init` -/
def shmemTalpInit (shmemSizeMultiplier : ℕ) : TalpNode × DlbError :=
  let n := n.openShmem systemSize caller shmemSizeMultiplier
  let maxRegions := (n.handle caller).maxRegions
  if !n.shm.initialized then
    ({ n with shm := { n.shm with initialized := true, numRegions := 0, maxRegions := maxRegions } }, .success)
  else if n.shm.maxRegions ≠ maxRegions then (n.closeShmem caller, .errInit)
  else (n, .success)

/-- The process `pid` has no region. -/
def forget : Pid → List Char → Option ℕ := update n.ids pid fun _ => none

/-- `shmem_talp__finalize`, of an attached process. -/
def shmemTalpFinalize : TalpNode :=
  { n with shm := { n.shm with talpRegion := n.shm.blank pid }, ids := n.forget pid }.closeShmem caller

/-- `shmem_talp__register` of an attached process, with the number that it returns. -/
def shmemTalpRegister : TalpNode × Except DlbError ℕ :=
  let r := n.shm.shmemTalpRegister pid name (n.handle caller).maxRegions
  ({ n with
      shm := r.1
      ids := match r.2 with
        | .ok i => update n.ids pid (update (n.ids pid) (name.take (monitorNameMax - 1)) (some i))
        | .error _ => n.ids },
    r.2)

/-- The state after an event. Without shared memory nothing is done. -/
def next : TalpEvent → TalpNode
  | .init caller shmemSizeMultiplier => (n.shmemTalpInit systemSize caller shmemSizeMultiplier).1
  | .register caller pid name => if caller ∈ n.attached then (n.shmemTalpRegister caller pid name).1 else n
  | .finalize caller pid => if caller ∈ n.attached then n.shmemTalpFinalize caller pid else n
  | .cleanup pid =>
    { n with
      shm := n.shm.cleanupShmem pid
      attached := n.attached.erase pid
      handle := update n.handle pid {}
      ids := n.forget pid }

/-- A call that finds no slot is one with as many regions as there are slots. -/
def FullOnly : TalpEvent → Prop
  | .register caller pid name => caller ∈ n.attached → (n.shmemTalpRegister caller pid name).2 = .error .errNomem →
      (n.handle caller).maxRegions ≤ n.shm.used
  | _ => True

/-- No region has two slots, and each number returned designates its region. -/
structure Kept : Prop where
  unique : ∀ i j, (n.shm.talpRegion i).pid ≠ 0 → n.shm.talpRegion i = n.shm.talpRegion j → i = j
  designates : ∀ pid name i, n.ids pid name = some i → i < n.shm.numRegions ∧ n.shm.talpRegion i = { name, pid }

/-- A process that runs out of slots has used them all, and one that initializes the memory finds no region in it. -/
def Sound : TalpEvent → Prop
  | .register caller pid name => caller ∈ n.attached → n.shm.search pid name = none →
      (n.handle caller).maxRegions ≤ n.shm.numRegions → (n.handle caller).maxRegions ≤ n.shm.used
  | .init _ _ => n.shm.initialized = false → n.shm.isShmemEmpty
  | _ => True

end TalpNode

def TalpEvent.HasPid : TalpEvent → Prop
  | .register _ pid _ => pid ≠ 0
  | _ => True

/-! ## The invariant -/

/-- The numbers returned are those of the regions, and the slots that have not been handed out are blank. -/
structure TalpNode.Numbered (n : TalpNode) : Prop where
  region : ∀ pid name i, n.ids pid name = some i ↔
    i < n.shm.numRegions ∧ pid ≠ 0 ∧ n.shm.talpRegion i = { name, pid }
  rest : ∀ i, n.shm.numRegions ≤ i → n.shm.talpRegion i = {}
  free : ∀ i, (n.shm.talpRegion i).pid = 0 → n.shm.talpRegion i = {}
  short : ∀ i, (n.shm.talpRegion i).name.length ≤ monitorNameMax - 1

namespace TalpNode.Numbered

variable {systemSize : ℕ} {n n1 : TalpNode} {caller pid : Pid} {name : List Char}

theorem kept (h : n.Numbered) : n.Kept where
  unique := by
    have hslot : ∀ i, (n.shm.talpRegion i).pid ≠ 0 →
        n.ids (n.shm.talpRegion i).pid (n.shm.talpRegion i).name = some i := by
      intro i hi
      refine (h.region _ _ i).mpr ⟨?_, hi, rfl⟩
      by_contra hlt
      rw [h.rest i (not_lt.mp hlt)] at hi
      exact hi rfl
    intro i j hi heq
    have hid := hslot i hi
    rw [heq, hslot j (heq ▸ hi)] at hid
    exact (Option.some.inj hid).symm
  designates pid name i hid := have hslot := (h.region pid name i).mp hid; ⟨hslot.1, hslot.2.2⟩

theorem start : ({} : TalpNode).Numbered where
  region _ _ i := iff_of_false nofun fun hi => Nat.not_lt_zero i hi.1
  rest _ _ := rfl
  free _ _ := rfl
  short _ := Nat.zero_le _

theorem congr (h : n.Numbered) (hnum : n1.shm.numRegions = n.shm.numRegions)
    (hregion : n1.shm.talpRegion = n.shm.talpRegion) (hids : n1.ids = n.ids) : n1.Numbered where
  region := by
    rw [hnum, hregion, hids]
    exact h.region
  rest := by
    rw [hnum, hregion]
    exact h.rest
  free := by
    rw [hregion]
    exact h.free
  short := by
    rw [hregion]
    exact h.short

theorem reset (h : n.Numbered) (hempty : n.shm.isShmemEmpty) (hnum : n1.shm.numRegions = 0)
    (hregion : ∀ i, (n1.shm.talpRegion i) = {}) (hids : n1.ids = n.ids) : n1.Numbered where
  region pid name i := by
    rw [hnum, hids, h.region]
    refine iff_of_false (fun hi => hi.2.1 ?_) fun hi => Nat.not_lt_zero i hi.1
    have hpid : (n.shm.talpRegion i).pid = pid := by rw [hi.2.2]
    rw [← hpid]
    exact of_decide_eq_true hempty i hi.1
  rest i _ := hregion i
  free i _ := hregion i
  short i := by
    rw [hregion i]
    exact Nat.zero_le _

theorem blank_eq (h : n.Numbered) (i : ℕ) :
    n.shm.blank pid i = if (n.shm.talpRegion i).pid = pid then {} else n.shm.talpRegion i := by
  unfold TalpShdata.blank
  by_cases hi : i < n.shm.numRegions
  · simp only [hi, true_and]
  · rw [if_neg fun hand => hi hand.1, h.rest i (not_lt.mp hi)]
    split
    · rfl
    · rfl

theorem leave (h : n.Numbered) (hnum : n1.shm.numRegions = n.shm.numRegions)
    (hregion : n1.shm.talpRegion = n.shm.blank pid) (hids : n1.ids = n.forget pid) : n1.Numbered where
  region q name i := by
    rw [hnum, hregion, hids, forget, h.blank_eq]
    by_cases hq : q = pid
    · subst hq
      rw [update_self]
      refine iff_of_false nofun ?_
      rintro ⟨-, hq, hslot⟩
      split at hslot
      · exact hq (congrArg TalpRegion.pid hslot).symm
      · rename_i hne
        exact hne (congrArg TalpRegion.pid hslot)
    · rw [update_of_ne hq, h.region]
      refine and_congr_right fun _ => and_congr_right fun hq0 => ?_
      split
      · rename_i hpid
        refine iff_of_false (fun hslot => hq ?_) fun hslot => hq0 (congrArg TalpRegion.pid hslot).symm
        rw [← hpid, hslot]
      · rfl
  rest i hi := by
    rw [hregion, h.blank_eq, h.rest i (hnum ▸ hi)]
    split
    · rfl
    · rfl
  free i := by
    rw [hregion, h.blank_eq]
    split
    · exact fun _ => rfl
    · exact h.free i
  short i := by
    rw [hregion, h.blank_eq]
    split
    · exact Nat.zero_le _
    · exact h.short i

theorem blanked (h : n.Numbered) (pid : Pid) :
    ({ n with shm := { n.shm with talpRegion := n.shm.blank pid }, ids := n.forget pid } : TalpNode).Numbered :=
  h.leave rfl rfl rfl

theorem cleanup (h : n.Numbered) (pid : Pid) : (n.next systemSize (.cleanup pid)).Numbered := by
  have hleave := h.blanked pid
  unfold next TalpShdata.cleanupShmem
  dsimp only
  split
  · rename_i hempty
    refine hleave.reset (decide_eq_true fun i hi => ?_) rfl (fun _ => rfl) rfl
    dsimp only at hi ⊢
    rw [h.blank_eq]
    split
    · rfl
    · rename_i hne
      exact hempty i hi hne
  · exact hleave.congr rfl rfl rfl

theorem close (h : n.Numbered) (caller : Pid) : (n.closeShmem caller).Numbered := by
  unfold closeShmem
  dsimp only
  split
  · split
    · rename_i hlast
      exact h.reset hlast.1 rfl (fun _ => rfl) rfl
    · exact h.congr rfl rfl rfl
  · exact h.congr rfl rfl rfl

theorem finalize (h : n.Numbered) (caller pid : Pid) : (n.shmemTalpFinalize caller pid).Numbered :=
  (h.blanked pid).close caller

theorem take_short (h : n.Numbered) (i : ℕ) :
    (n.shm.talpRegion i).name.take (monitorNameMax - 1) = (n.shm.talpRegion i).name := List.take_of_length_le (h.short i)

theorem search_iff (h : n.Numbered) (hpid : pid ≠ 0) (i : ℕ) :
    n.shm.search pid name = some i ↔ n.ids pid (name.take (monitorNameMax - 1)) = some i := by
  have hmatch : ∀ j, (decide ((n.shm.talpRegion j).pid = pid ∧ (n.shm.talpRegion j).name.take (monitorNameMax - 1) =
      name.take (monitorNameMax - 1)) = true) ↔ n.shm.talpRegion j = { name := name.take (monitorNameMax - 1), pid } := by
    intro j
    rw [decide_eq_true_iff, h.take_short j]
    constructor
    · rintro ⟨hp, hn⟩
      rw [← hp, ← hn]
    · intro hj
      rw [hj]
      exact ⟨rfl, rfl⟩
  constructor
  · intro hscan
    obtain ⟨hlt, hp, -⟩ := scan_some hscan
    exact (h.region _ _ i).mpr ⟨hlt, hpid, (hmatch i).mp hp⟩
  · intro hid
    obtain ⟨hlt, -, hslot⟩ := (h.region _ _ i).mp hid
    refine scan_of_unique hlt ((hmatch i).mpr hslot) fun j hj => ?_
    have hj' := (hmatch j).mp hj
    exact h.kept.unique j i (by rw [hj']; exact hpid) (hj'.trans hslot.symm)

theorem register (h : n.Numbered) (caller : Pid) (hpid : pid ≠ 0) (name : List Char) :
    (n.shmemTalpRegister caller pid name).1.Numbered := by
  unfold shmemTalpRegister TalpShdata.shmemTalpRegister
  cases hsearch : n.shm.search pid name with
  | some i =>
    refine h.congr rfl rfl ?_
    dsimp only
    rw [← (h.search_iff hpid i).mp hsearch, update_eq_self, update_eq_self]
  | none =>
    dsimp only
    split
    · -- the region gets the next slot
      have hnew : ∀ i, n.ids pid (name.take (monitorNameMax - 1)) ≠ some i := by
        intro i hi
        rw [(h.search_iff hpid i).mpr hi] at hsearch
        exact nomatch hsearch
      refine ⟨fun q m i => ?_, fun i hi => ?_, fun i => ?_, fun i => ?_⟩
      · dsimp only
        by_cases hi : i = n.shm.numRegions
        · subst hi
          rw [update_self]
          by_cases hq : q = pid ∧ m = name.take (monitorNameMax - 1)
          · obtain ⟨rfl, rfl⟩ := hq
            rw [update_self, update_self]
            exact iff_of_true rfl ⟨Nat.lt_succ_self _, hpid, rfl⟩
          · refine iff_of_false (fun hid => ?_) fun hslot => hq ?_
            · have hold : n.ids q m = some n.shm.numRegions := by
                by_cases hqp : q = pid
                · subst hqp
                  rwa [update_self, update_of_ne fun hm => hq ⟨rfl, hm⟩] at hid
                · rwa [update_of_ne hqp] at hid
              exact lt_irrefl _ ((h.region q m _).mp hold).1
            · have := TalpRegion.mk.inj hslot.2.2
              exact ⟨this.2.symm, this.1.symm⟩
        · rw [update_of_ne hi]
          have hlt : i < n.shm.numRegions + 1 ↔ i < n.shm.numRegions := by omega
          rw [hlt, ← h.region]
          by_cases hqp : q = pid
          · subst hqp
            rw [update_self]
            by_cases hm : m = name.take (monitorNameMax - 1)
            · subst hm
              rw [update_self]
              exact iff_of_false (fun h' => hi (Option.some.inj h').symm) (hnew i)
            · rw [update_of_ne hm]
          · rw [update_of_ne hqp]
      · dsimp only at hi ⊢
        rw [update_of_ne (by omega)]
        exact h.rest i (by omega)
      · dsimp only
        by_cases hi : i = n.shm.numRegions
        · rw [hi, update_self]
          exact fun h0 => absurd h0 hpid
        · rw [update_of_ne hi]
          exact h.free i
      · dsimp only
        by_cases hi : i = n.shm.numRegions
        · rw [hi, update_self]
          exact List.length_take_le _ _
        · rw [update_of_ne hi]
          exact h.short i
    · exact h.congr rfl rfl rfl

theorem init (h : n.Numbered) (caller : Pid) (multiplier : ℕ) (hsound : n.Sound (.init caller multiplier)) :
    (n.next systemSize (.init caller multiplier)).Numbered := by
  have hopen : (n.openShmem systemSize caller multiplier).Numbered := h.congr rfl rfl rfl
  have hinitialized : (n.openShmem systemSize caller multiplier).shm.initialized = n.shm.initialized := rfl
  unfold next shmemTalpInit
  dsimp only
  rw [hinitialized]
  cases hinit : n.shm.initialized with
  | false =>
    have hempty : n.shm.isShmemEmpty := hsound hinit
    refine reset hopen hempty rfl (fun i => ?_) rfl
    by_cases hi : i < n.shm.numRegions
    · exact h.free i (of_decide_eq_true hempty i hi)
    · exact h.rest i (not_lt.mp hi)
  | true =>
    rw [if_neg (by decide)]
    split
    · exact hopen.close caller
    · exact hopen

theorem init_sound (h : n.Numbered) {caller : Pid} {multiplier : ℕ}
    (hkept : (n.next systemSize (.init caller multiplier)).Kept) : n.Sound (.init caller multiplier) := by
  intro hinit
  refine decide_eq_true fun i hi => ?_
  by_contra hpid
  have hid := (h.region _ _ i).mpr ⟨hi, hpid, rfl⟩
  unfold next shmemTalpInit at hkept
  have hnot : (!(n.openShmem systemSize caller multiplier).shm.initialized) = true := by
    change (!n.shm.initialized) = true
    rw [hinit]
    rfl
  dsimp only at hkept
  rw [if_pos hnot] at hkept
  exact Nat.not_lt_zero i (hkept.designates _ _ i hid).1

theorem fullOnly_iff (caller pid : Pid) (name : List Char) :
    n.FullOnly (.register caller pid name) ↔ n.Sound (.register caller pid name) := by
  unfold FullOnly Sound shmemTalpRegister TalpShdata.shmemTalpRegister
  refine forall_congr' fun _ => ?_
  cases hsearch : n.shm.search pid name with
  | some i => exact iff_of_true nofun nofun
  | none =>
    dsimp only
    split
    · rename_i hlt
      exact iff_of_true nofun fun _ hle => absurd hlt (not_lt.mpr hle)
    · rename_i hge
      exact ⟨fun hfull _ _ => hfull rfl, fun hsound _ => hsound rfl (not_lt.mp hge)⟩

theorem next_numbered (h : n.Numbered) {e : TalpEvent} (hpid : e.HasPid) (hsound : n.Sound e) :
    (n.next systemSize e).Numbered := by
  cases e with
  | init caller multiplier => exact h.init caller multiplier hsound
  | register caller pid name =>
    unfold next
    dsimp only
    split
    · exact h.register caller hpid name
    · exact h
  | finalize caller pid =>
    unfold next
    dsimp only
    split
    · exact h.finalize caller pid
    · exact h
  | cleanup pid => exact h.cleanup pid

theorem next_iff (h : n.Numbered) {e : TalpEvent} (hpid : e.HasPid) :
    (n.FullOnly e ∧ (n.next systemSize e).Kept) ↔ n.Sound e := by
  constructor
  · rintro ⟨hfull, hkept⟩
    cases e with
    | init caller multiplier => exact h.init_sound hkept
    | register caller pid name => exact (fullOnly_iff caller pid name).mp hfull
    | finalize caller pid => trivial
    | cleanup pid => trivial
  · intro hsound
    refine ⟨?_, (h.next_numbered hpid hsound).kept⟩
    cases e with
    | init caller multiplier => trivial
    | register caller pid name => exact (fullOnly_iff caller pid name).mpr hsound
    | finalize caller pid => trivial
    | cleanup pid => trivial

end TalpNode.Numbered

/-! ## Runs -/

/-- **The slots of TALP's shared memory**: no process runs out of them with less than `max_regions` regions registered, no
region has two, and the numbers returned keep designating their regions, exactly if every event is sound. -/
theorem slots_recycled_iff (systemSize : ℕ) (events : List TalpEvent) (hpid : ∀ e ∈ events, e.HasPid) :
    Along (TalpNode.next systemSize) (fun n e => n.FullOnly e ∧ (n.next systemSize e).Kept) {} events ↔
      Along (TalpNode.next systemSize) TalpNode.Sound {} events :=
  Along.congr (I := TalpNode.Numbered) (R := TalpEvent.HasPid) (fun _ _ h hpid hsound => h.next_numbered hpid hsound)
    (fun _ _ h hpid => h.next_iff hpid) {} events .start hpid

/-- One process registers a region and leaves. -/
theorem slots_recycled_one : Along (TalpNode.next 1)
    (fun n e => n.FullOnly e ∧ (n.next 1 e).Kept) {} [.init 1 3, .register 1 1 ['a'], .finalize 1 1] := by
  refine (slots_recycled_iff 1 _ ?_).mpr ⟨fun _ => rfl, fun _ _ hle => absurd hle (by decide), trivial, trivial⟩
  simp [TalpEvent.HasPid]

/-- One slot, and two processes: the first one registers a region and leaves. The second one finds no slot. -/
theorem slots_recycled_never : ¬ Along (TalpNode.next 1) (fun n e => n.FullOnly e ∧ (n.next 1 e).Kept) {}
    [.init 1 1, .init 2 1, .register 1 1 ['a'], .finalize 1 1, .register 2 2 ['b']] := by
  rintro ⟨-, -, -, -, ⟨hfull, -⟩, -⟩
  have hused := hfull (by decide) (by rfl)
  exact absurd hused (by decide)

end Dlb.Talp

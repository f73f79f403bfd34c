import Dlb.Lib.Partition
import Dlb.Procinfo.Entries

/-!
# Who owns which CPU

Without CPU sharing, every CPU of the system is free or belongs to one process. The invariant `Sound` says so of the
masks that count, and what the operations rely on besides: a process that is not dirty has its pending mask, nobody has
lost a CPU that it owns, an empty slot has nothing.

Every operation moves CPUs from one holder to another (`Sound.of_move`). Two kinds of call do not: a mask with CPUs
beyond those of the system, which the checks do not see, and an init that inherits from a preregistered process and
gets back CPUs which that process had lost (case B leaves them in `stolen_cpus`). In runs without them the CPUs stay
divided (`ownership_partition`).
-/

namespace Dlb.Procinfo

open Finset Function

variable {S : System} {c : Caller} {d d' : Shdata} {info info' : Pinfo} {mask m : CpuSet} {p q : ℕ} {pid : Pid}

/-! ## The invariant -/

/-- Who holds which CPUs: the `free_mask` and the slots. -/
def holders (d : Shdata) : Option ℕ → CpuSet
  | none => d.freeMask
  | some i => (d.processInfo i).effective

structure Pinfo.Ok (S : System) (info : Pinfo) : Prop where
  clean : info.dirty = false → info.currentProcessMask = info.futureProcessMask
  stolen : Disjoint info.stolenCpus info.futureProcessMask
  current : info.currentProcessMask ⊆ S.sysMask
  lost : info.stolenCpus ⊆ S.sysMask
  vacant : info.pid = 0 → info.dirty = false ∧ info.futureProcessMask = ∅ ∧ info.stolenCpus = ∅

/-- The CPUs of the system are divided among the free ones and the processes. -/
structure Sound (S : System) (d : Shdata) : Prop where
  part : Lib.IsPartition S.sysMask (holders d)
  slot : ∀ i, (d.processInfo i).Ok S
  sharing : d.allowCpuSharing = false

theorem Pinfo.Ok.of_dirty (hd : info.dirty = true) (hpid : info.pid ≠ 0)
    (hs : Disjoint info.stolenCpus info.futureProcessMask) (hc : info.currentProcessMask ⊆ S.sysMask)
    (hl : info.stolenCpus ⊆ S.sysMask) : info.Ok S := by
  refine ⟨fun h => ?_, hs, hc, hl, fun hz => absurd hz hpid⟩
  rw [hd] at h
  cases h

theorem Pinfo.Ok.effective (h : info.Ok S) : info.effective = info.futureProcessMask := by
  unfold Pinfo.effective
  split
  · rfl
  · rename_i hd
    exact h.clean (by simpa using hd)

/-- The masks that count of the registered processes and the free CPUs divide the system, and a process that is not
dirty has its pending mask. -/
structure Divided (S : System) (d : Shdata) : Prop where
  apart : ∀ i j, i ≠ j → (d.processInfo i).pid ≠ 0 → (d.processInfo j).pid ≠ 0 →
    Disjoint (d.processInfo i).effective (d.processInfo j).effective
  free : ∀ i, (d.processInfo i).pid ≠ 0 → Disjoint (d.processInfo i).effective d.freeMask
  whole : ∀ cpu, cpu ∈ S.sysMask ↔
    cpu ∈ d.freeMask ∨ ∃ i, (d.processInfo i).pid ≠ 0 ∧ cpu ∈ (d.processInfo i).effective
  clean : ∀ i, (d.processInfo i).pid ≠ 0 → (d.processInfo i).dirty = false →
    (d.processInfo i).currentProcessMask = (d.processInfo i).futureProcessMask

theorem Sound.registered (h : Sound S d) {i cpu : ℕ} (hc : cpu ∈ holders d (some i)) : (d.processInfo i).pid ≠ 0 := by
  intro hz
  have hfuture := (h.slot i).effective
  rw [((h.slot i).vacant hz).2.1] at hfuture
  rw [holders, hfuture] at hc
  cases hc

theorem Sound.divided (h : Sound S d) : Divided S d where
  apart i j hij _ _ := h.part.disjoint (some i) (some j) (by simpa using hij)
  free i _ := h.part.disjoint (some i) none (by simp)
  whole cpu := by
    rw [h.part.cover cpu]
    constructor
    · rintro ⟨x, hx⟩
      cases x with
      | none => exact .inl hx
      | some i => exact .inr ⟨i, h.registered hx, hx⟩
    · rintro (hx | ⟨i, -, hx⟩)
      · exact ⟨none, hx⟩
      · exact ⟨some i, hx⟩
  clean i _ := (h.slot i).clean

theorem Sound.free_subset (h : Sound S d) : d.freeMask ⊆ S.sysMask := h.part.subset none

theorem Sound.holder (h : Sound S d) (i : ℕ) : holders d (some i) = (d.processInfo i).futureProcessMask :=
  (h.slot i).effective

theorem Sound.future_subset (h : Sound S d) (i : ℕ) : (d.processInfo i).futureProcessMask ⊆ S.sysMask :=
  h.holder i ▸ h.part.subset (some i)

theorem Sound.current_eq (h : Sound S d) (hp : (d.processInfo p).dirty = false) :
    (d.processInfo p).currentProcessMask = holders d (some p) := by
  rw [h.holder, (h.slot p).clean hp]

@[simp] theorem holders_set_self (d : Shdata) (p : ℕ) (info : Pinfo) :
    holders (d.set p info) (some p) = info.effective := by
  simp [holders]

theorem holders_set_other (d : Shdata) (info : Pinfo) {x : Option ℕ} (h : x ≠ some p) :
    holders (d.set p info) x = holders d x := by
  cases x with
  | none => rfl
  | some i => simp [holders, set_other_slot d info fun e => h (congrArg some e)]

theorem Sound.of_move (h : Sound S d) {x y : Option ℕ} (hxy : x ≠ y) (hm : m ⊆ holders d x)
    (hx : holders d' x = holders d x \ m) (hy : holders d' y = holders d y ∪ m)
    (hz : ∀ z, z ≠ x → z ≠ y → holders d' z = holders d z) (hslot : ∀ i, (d'.processInfo i).Ok S)
    (hs : d'.allowCpuSharing = d.allowCpuSharing) : Sound S d' :=
  ⟨h.part.move hxy hm hx hy hz, hslot, hs.trans h.sharing⟩

theorem ok_set (h : ∀ i, (d.processInfo i).Ok S) (hinfo : info.Ok S) (i : ℕ) : ((d.set p info).processInfo i).Ok S := by
  by_cases hi : i = p
  · subst hi
    simpa
  · rw [set_other_slot d info hi]
    exact h i

theorem Sound.set (h : Sound S d) (hinfo : info.Ok S) (he : info.effective = holders d (some p)) :
    Sound S (d.set p info) := by
  refine ⟨h.part.congr fun z => ?_, ok_set h.slot hinfo, h.sharing⟩
  by_cases hz : z = some p
  · rw [hz, holders_set_self, he]
  · exact holders_set_other d info hz

theorem Sound.grant (h : Sound S d) (hm : m ⊆ d.freeMask) (hinfo : info.Ok S)
    (he : info.effective = holders d (some p) ∪ m) : Sound S ({ d with freeMask := d.freeMask \ m }.set p info) := by
  refine h.of_move (x := none) (y := some p) (by simp) hm rfl (by simpa using he) ?_ (ok_set h.slot hinfo) rfl
  intro z hn hp
  rw [holders_set_other _ info hp]
  cases z with
  | none => exact absurd rfl hn
  | some i => rfl

theorem Sound.release (h : Sound S d) (hm : m ⊆ holders d (some p)) (hinfo : info.Ok S)
    (he : info.effective = holders d (some p) \ m) : Sound S ({ d with freeMask := d.freeMask ∪ m }.set p info) := by
  refine h.of_move (x := some p) (y := none) (by simp) hm (by simpa using he) rfl ?_ (ok_set h.slot hinfo) rfl
  intro z hp hn
  rw [holders_set_other _ info hp]
  cases z with
  | none => exact absurd rfl hn
  | some i => rfl

theorem Sound.transfer (h : Sound S d) (hpq : p ≠ q) (hm : m ⊆ holders d (some p)) (hinfo : info.Ok S)
    (hinfo' : info'.Ok S) (he : info.effective = holders d (some p) \ m)
    (he' : info'.effective = holders d (some q) ∪ m) : Sound S ((d.set q info').set p info) := by
  refine h.of_move (x := some p) (y := some q) (by simpa using hpq) hm (by simpa using he) ?_ ?_
    (ok_set (ok_set h.slot hinfo') hinfo) rfl
  · rw [holders_set_other _ _ (by simpa using hpq.symm), holders_set_self, he']
  · intro z hp hq
    rw [holders_set_other _ _ hp, holders_set_other _ _ hq]

/-! ## Registering and unregistering -/

theorem granted_of_ok (h : info.Ok S) (mask : CpuSet) :
    granted S info mask = { info with
      futureProcessMask := info.futureProcessMask ∪ mask
      stolenCpus := info.stolenCpus \ mask
      dirty := true } := by
  have hfit := fits_of_subset h.lost
  rw [granted, muSubtract_of_fits hfit hfit]

theorem granted_ok (h : info.Ok S) (hpid : info.pid ≠ 0) : (granted S info mask).Ok S := by
  rw [granted_of_ok h]
  refine .of_dirty rfl hpid ?_ h.current ?_
  · refine disjoint_union_right.mpr ⟨?_, sdiff_disjoint⟩
    exact disjoint_of_subset_left sdiff_subset h.stolen
  · exact sdiff_subset.trans h.lost

theorem granted_effective (info : Pinfo) (mask : CpuSet) :
    (granted S info mask).effective = info.futureProcessMask ∪ mask := rfl

theorem registerMask_cases (h : Sound S d) (owner : Pinfo) (hfit : Fits S mask) :
    (mask ⊆ d.freeMask ∧ registerMask S d owner mask =
      ({ d with freeMask := d.freeMask \ mask }, if mask = ∅ then owner else granted S owner mask, .success)) ∨
    registerMask S d owner mask = (d, owner, .errPerm) := by
  unfold registerMask
  split
  · rename_i hempty
    subst hempty
    exact .inl ⟨empty_subset _, by simp⟩
  rename_i hne
  rw [if_neg (by simp [h.sharing])]
  split
  · rename_i hsub
    have hsub : mask ⊆ d.freeMask := by simpa [muIsSubset, filter_true_of_mem hfit] using hsub
    have hfree := fits_of_subset h.free_subset
    exact .inl ⟨hsub, by rw [muSubtract_of_fits hfree hfree]⟩
  · exact .inr rfl

theorem registerMask_sound (h : Sound S d) (hm : mask ⊆ d.freeMask) (hpid : mask ≠ ∅ → (d.processInfo p).pid ≠ 0) :
    ∃ info, registerMask S d (d.processInfo p) mask =
        ({ d with freeMask := d.freeMask \ mask }, info, .success) ∧
      Sound S ({ d with freeMask := d.freeMask \ mask }.set p info) ∧
      info.futureProcessMask = (d.processInfo p).futureProcessMask ∪ mask ∧
      info.pid = (d.processInfo p).pid ∧
      info.currentProcessMask = (d.processInfo p).currentProcessMask := by
  have hfit : Fits S mask := fits_of_subset (hm.trans h.free_subset)
  rcases registerMask_cases h (d.processInfo p) hfit with ⟨-, heq⟩ | heq
  · refine ⟨_, heq, ?_⟩
    split
    · rename_i hempty
      subst hempty
      refine ⟨h.grant hm (h.slot p) ?_, by simp, rfl, rfl⟩
      rw [union_empty]
      rfl
    · rename_i hne
      refine ⟨h.grant hm (granted_ok (h.slot p) (hpid hne)) ?_, rfl, rfl, rfl⟩
      rw [granted_effective, h.holder]
  · -- the CPUs are free, so the check passes
    exfalso
    have herror : (registerMask S d (d.processInfo p) mask).2.2 = .errPerm := by rw [heq]
    have hsub : muIsSubset S mask d.freeMask = true := by
      simpa [muIsSubset, filter_true_of_mem hfit] using hm
    simp only [registerMask, h.sharing, hsub, Bool.false_eq_true, if_false, if_true] at herror
    split at herror <;> cases herror

theorem givenBack_ok (h : info.Ok S) (hpid : info.pid ≠ 0) (cpu : ℕ) : (givenBack info cpu).Ok S := by
  refine .of_dirty rfl hpid ?_ h.current ((erase_subset _ _).trans h.lost)
  refine disjoint_insert_right.mpr ⟨notMem_erase _ _, ?_⟩
  exact disjoint_of_subset_left (erase_subset _ _) h.stolen

theorem unregisterCpu_sound {cpu : ℕ} (h : Sound S d) (hcpu : cpu ∈ (d.processInfo p).futureProcessMask) :
    Sound S (unregisterCpu p d cpu) ∧ ((unregisterCpu p d cpu).processInfo p).futureProcessMask =
      (d.processInfo p).futureProcessMask.erase cpu := by
  have hp := h.slot p
  have hpid : (d.processInfo p).pid ≠ 0 := by
    intro hz
    rw [(hp.vacant hz).2.1] at hcpu
    cases hcpu
  -- the entry of the owner afterwards
  have hok : Pinfo.Ok S { d.processInfo p with
      futureProcessMask := (d.processInfo p).futureProcessMask.erase cpu
      dirty := true } := by
    refine .of_dirty rfl hpid ?_ hp.current hp.lost
    exact disjoint_of_subset_right (erase_subset _ _) hp.stolen
  have hm : ({cpu} : CpuSet) ⊆ holders d (some p) := by
    rw [h.holder]
    exact singleton_subset_iff.mpr hcpu
  have heff : (d.processInfo p).futureProcessMask.erase cpu = holders d (some p) \ {cpu} := by
    rw [h.holder, erase_eq]
  unfold unregisterCpu giveBack
  split
  · rename_i q hscan
    obtain ⟨-, hq, -⟩ := Lib.scan_some hscan
    simp only [ne_eq, decide_eq_true_eq] at hq
    have hpq : p ≠ q := by
      rintro rfl
      exact disjoint_left.mp hp.stolen hq.2 hcpu
    simp only [Shdata.modify, set_other_slot _ _ hpq]
    refine ⟨h.transfer hpq hm hok (givenBack_ok (h.slot q) hq.1 cpu) heff ?_, by simp⟩
    rw [h.holder, union_comm]
    rfl
  · simp only [Shdata.modify]
    refine ⟨?_, by simp⟩
    have := h.release hm hok heff
    rwa [union_comm] at this

theorem foldl_unregisterCpu_sound (cpus : List ℕ) (hnodup : cpus.Nodup) (h : Sound S d)
    (hcpus : ∀ cpu ∈ cpus, cpu ∈ (d.processInfo p).futureProcessMask) :
    Sound S (cpus.foldl (unregisterCpu p) d) ∧
      ((cpus.foldl (unregisterCpu p) d).processInfo p).futureProcessMask =
        (d.processInfo p).futureProcessMask \ cpus.toFinset := by
  induction cpus generalizing d with
  | nil => exact ⟨h, by simp⟩
  | cons cpu rest ih =>
    obtain ⟨hnot, hrest⟩ := List.nodup_cons.mp hnodup
    obtain ⟨hs, hfuture⟩ := unregisterCpu_sound h (hcpus cpu List.mem_cons_self)
    obtain ⟨hs', hfuture'⟩ := ih hrest hs fun cpu' hmem => by
      rw [hfuture]
      refine mem_erase.mpr ⟨?_, hcpus cpu' (List.mem_cons_of_mem _ hmem)⟩
      rintro rfl
      exact hnot hmem
    refine ⟨hs', ?_⟩
    rw [List.foldl_cons, hfuture', hfuture]
    ext x
    simp only [mem_sdiff, mem_erase, List.toFinset_cons, mem_insert]
    tauto

theorem unregisterMask_sound (h : Sound S d) (hm : mask ⊆ (d.processInfo p).futureProcessMask) (returnStolen : Bool) :
    Sound S (unregisterMask S d p mask returnStolen) ∧
      ((unregisterMask S d p mask returnStolen).processInfo p).futureProcessMask =
        (d.processInfo p).futureProcessMask \ mask := by
  unfold unregisterMask
  split
  · rename_i hempty
    subst hempty
    exact ⟨h, by simp⟩
  rename_i hne
  rw [if_neg (by simp [h.sharing])]
  have hp := h.slot p
  split
  · have hlist : ((List.range S.size).filter (· ∈ mask)).toFinset = mask := by
      ext x
      simp only [List.toFinset_filter, List.toFinset_range, mem_filter, mem_range, decide_eq_true_eq,
        and_iff_right_iff_imp]
      exact fun hx => System.lt_size (h.future_subset p (hm hx))
    have := foldl_unregisterCpu_sound (S := S) (p := p) ((List.range S.size).filter (· ∈ mask))
      (List.nodup_range.filter _) h fun cpu hcpu => hm (by simpa using (List.mem_filter.mp hcpu).2)
    rwa [hlist] at this
  · have hpid : (d.processInfo p).pid ≠ 0 := by
      intro hz
      rw [(hp.vacant hz).2.1] at hm
      exact hne (subset_empty.mp hm)
    have hfit := fits_of_subset (h.future_subset p)
    simp only [Shdata.modify, set_same_slot, muSubtract_of_fits hfit hfit, and_true]
    refine h.release (by rw [h.holder]; exact hm) ?_ (by rw [h.holder]; rfl)
    exact .of_dirty rfl hpid (disjoint_of_subset_right sdiff_subset hp.stolen) hp.current hp.lost

/-! ## Stealing -/

theorem stealLoop_dry (S : System) (p : ℕ) (m : CpuSet) (d d1 : Shdata) (ps : List ℕ) (hnodup : ps.Nodup) (left : CpuSet)
    (hagree : ∀ q ∈ ps, d1.processInfo q = d.processInfo q) :
    (stealLoop S p m true ps d left).1 = d ∧
      (stealLoop S p m true ps d left).2 = (stealLoop S p m false ps d1 left).2 := by
  induction ps generalizing d1 left with
  | nil => exact ⟨rfl, rfl⟩
  | cons q ps ih =>
    obtain ⟨hnot, hrest⟩ := List.nodup_cons.mp hnodup
    have htail : ∀ q' ∈ ps, d1.processInfo q' = d.processInfo q' := fun q' hq' =>
      hagree q' (List.mem_cons_of_mem _ hq')
    have hset : ∀ info, ∀ q' ∈ ps, (d1.set q info).processInfo q' = d.processInfo q' := by
      intro info q' hq'
      rw [set_other_slot d1 info (by rintro rfl; exact hnot hq')]
      exact htail q' hq'
    simp only [stealLoop, hagree q List.mem_cons_self, stealFrom, if_true, Bool.false_eq_true, if_false]
    split
    · split
      · exact ⟨rfl, rfl⟩
      · split
        · exact ⟨rfl, rfl⟩
        · exact ih _ hrest _ (hset _)
    · exact ih d1 hrest left htail

/-- In the loop of `steal_mask`, the CPUs taken so far count for the new owner in slot `p`. -/
structure Stealing (S : System) (d : Shdata) (p : ℕ) (taken : CpuSet) : Prop where
  part : Lib.IsPartition S.sysMask (update (holders d) (some p) (holders d (some p) ∪ taken))
  slot : ∀ i, (d.processInfo i).Ok S
  sharing : d.allowCpuSharing = false

theorem Sound.stealing (h : Sound S d) (p : ℕ) : Stealing S d p ∅ := by
  refine ⟨h.part.congr fun z => ?_, h.slot, h.sharing⟩
  by_cases hz : z = some p
  · subst hz
    simp
  · simp [hz]

theorem robbed_of_ok (h : info.Ok S) (hclean : info.dirty = false) (target : CpuSet) :
    robbed S info target = { info with
      dirty := true
      futureProcessMask := info.currentProcessMask \ target
      stolenCpus := info.stolenCpus ∪ target } := by
  have hfit := fits_of_subset h.current
  rw [robbed, muSubtract_of_fits (h.clean hclean ▸ hfit) hfit]

theorem robbed_ok (h : info.Ok S) (hclean : info.dirty = false) (hpid : info.pid ≠ 0) {target : CpuSet}
    (ht : target ⊆ info.currentProcessMask) : (robbed S info target).Ok S := by
  rw [robbed_of_ok h hclean]
  refine .of_dirty rfl hpid ?_ h.current (union_subset h.lost (ht.trans h.current))
  refine disjoint_union_left.mpr ⟨?_, disjoint_sdiff⟩
  rw [h.clean hclean]
  exact disjoint_of_subset_right sdiff_subset h.stolen

theorem Stealing.rob {taken target : CpuSet} (h : Stealing S d p taken) (hq : q ≠ p)
    (hclean : (d.processInfo q).dirty = false) (hpid : (d.processInfo q).pid ≠ 0)
    (ht : target ⊆ (d.processInfo q).currentProcessMask) :
    Stealing S (d.set q (robbed S (d.processInfo q) target)) p (taken ∪ target) := by
  have hqp : some q ≠ some p := by simpa using hq
  have hhold : holders d (some q) = (d.processInfo q).currentProcessMask := by
    rw [holders, (h.slot q).effective, (h.slot q).clean hclean]
  refine ⟨?_, ok_set h.slot (robbed_ok (h.slot q) hclean hpid ht), h.sharing⟩
  refine h.part.move (m := target) hqp ?_ ?_ ?_ fun z hzq hzp => ?_
  · rw [update_of_ne hqp, hhold]
    exact ht
  · rw [update_of_ne hqp, update_of_ne hqp, holders_set_self, hhold, robbed_of_ok (h.slot q) hclean]
    rfl
  · rw [update_self, update_self, holders_set_other _ _ hqp.symm, union_assoc]
  · rw [update_of_ne hzp, update_of_ne hzp, holders_set_other _ _ hzq]

theorem stealLoop_sound {taken left : CpuSet} (ps : List ℕ) (h : Stealing S d p taken) (hfit : Fits S m)
    (ht : taken ⊆ m) (hl : left = m \ taken)
    (hok : (stealLoop S p m false ps d left).2.2 = .success) :
    ∃ taken', Stealing S (stealLoop S p m false ps d left).1 p taken' ∧ taken' ⊆ m ∧
      (stealLoop S p m false ps d left).2.1 = m \ taken' ∧
      (stealLoop S p m false ps d left).1.processInfo p = d.processInfo p ∧
      (stealLoop S p m false ps d left).1.freeMask = d.freeMask := by
  induction ps generalizing d taken left with
  | nil => exact ⟨taken, h, ht, hl, rfl, rfl⟩
  | cons q ps ih =>
    simp only [stealLoop] at hok ⊢
    split at hok
    · rename_i hq
      rw [if_pos hq]
      split at hok
      · cases hok
      rename_i hclean
      rw [if_neg hclean]
      have hclean : (d.processInfo q).dirty = false := by simpa using hclean
      have hrob := h.rob hq.1 hclean hq.2.1
        (inter_subset_left : (d.processInfo q).currentProcessMask ∩ m ⊆ (d.processInfo q).currentProcessMask)
      have ht' : taken ∪ (d.processInfo q).currentProcessMask ∩ m ⊆ m :=
        union_subset ht inter_subset_right
      have hfl : Fits S left := fun x hx => hfit x (by rw [hl] at hx; exact (mem_sdiff.mp hx).1)
      have hl' : muSubtract S left left ((d.processInfo q).currentProcessMask ∩ m) =
          m \ (taken ∪ (d.processInfo q).currentProcessMask ∩ m) := by
        rw [muSubtract_of_fits hfl hfl, hl]
        exact sdiff_sdiff_left
      have hslot : ∀ info, (d.set q info).processInfo p = d.processInfo p := fun info =>
        set_other_slot d info hq.1.symm
      split at hok
      · rename_i hdone
        rw [if_pos hdone]
        exact ⟨_, hrob, ht', hl', hslot _, rfl⟩
      · rename_i hmore
        rw [if_neg hmore]
        obtain ⟨taken', h', ht'', hleft, hp, hfree⟩ := ih hrob ht' hl' hok
        exact ⟨taken', h', ht'', hleft, hp.trans (hslot _), hfree⟩
    · rename_i hq
      rw [if_neg hq]
      exact ih h ht hl hok

theorem stealError_success {left : CpuSet} {error : DlbError} (h : stealError left error = .success) :
    error = .success ∧ left = ∅ := by
  unfold stealError at h
  split at h
  · cases h
  · rename_i hnot
    refine ⟨h, ?_⟩
    by_contra hne
    exact hnot ⟨h, hne⟩

theorem stealMask_dry (S : System) (d : Shdata) (p : ℕ) (m : CpuSet) : (stealMask S d p m true).1 = d := by
  unfold stealMask
  split
  · rfl
  · exact (stealLoop_dry S p m d d _ List.nodup_range m fun _ _ => rfl).1

theorem stealMask_sound (h : Sound S d) (hfit : Fits S m) (hpid : (d.processInfo p).pid ≠ 0)
    (hdry : (stealMask S d p m true).2 = .success) :
    (stealMask S d p m false).2 = .success ∧ Sound S (stealMask S d p m false).1 ∧
      (stealMask S d p m false).1.freeMask = d.freeMask ∧
      ((stealMask S d p m false).1.processInfo p).futureProcessMask = (d.processInfo p).futureProcessMask ∪ m ∧
      ((stealMask S d p m false).1.processInfo p).pid = (d.processInfo p).pid ∧
      ((stealMask S d p m false).1.processInfo p).currentProcessMask = (d.processInfo p).currentProcessMask := by
  unfold stealMask at hdry ⊢
  split at hdry
  · rename_i hempty
    subst hempty
    simpa using h
  rename_i hne
  rw [if_neg hne]
  have hloop := (stealLoop_dry S p m d d (List.range d.numProcesses) List.nodup_range m fun _ _ => rfl).2
  simp only [if_true, hloop] at hdry
  simp only [Bool.false_eq_true, if_false, hdry, if_true, true_and]
  obtain ⟨hok, hleft⟩ := stealError_success hdry
  obtain ⟨taken, hs, hsub, hleft', hp, hfree⟩ :=
    stealLoop_sound (List.range d.numProcesses) (h.stealing p) hfit (empty_subset m) (by simp) hok
  have htaken : taken = m := by
    rw [hleft'] at hleft
    exact Finset.Subset.antisymm hsub (sdiff_eq_empty_iff_subset.mp hleft)
  subst htaken
  generalize (stealLoop S p taken false (List.range d.numProcesses) d taken).1 = d1 at hs hp hfree ⊢
  rw [hp]
  refine ⟨⟨hs.part.congr fun z => ?_, ok_set hs.slot ?_, hs.sharing⟩, hfree, ?_, ?_, ?_⟩
  · by_cases hz : z = some p
    · subst hz
      rw [holders_set_self, update_self, granted_effective, ← hp, holders, (hs.slot p).effective]
    · rw [holders_set_other _ _ hz, update_of_ne hz]
  · exact granted_ok (hp ▸ hs.slot p) hpid
  all_goals simp [granted]

/-! ## Setting a new mask -/

theorem fits_of_lt_size (h : ∀ cpu ∈ m, cpu < S.size) : Fits S m := fun cpu hc => (h cpu hc).trans_le S.size_le_bits

theorem classes_eq (h : Sound S d) (hclean : (d.processInfo p).dirty = false) (mask : CpuSet) :
    ((d.processInfo p).futureProcessMask ∪ cpusToSteal S d (d.processInfo p) mask ∪ cpusToAcquire S d mask) \
      cpusToFree S (d.processInfo p) mask = {cpu ∈ mask | cpu < S.size} := by
  have hsize : ∀ cpu, cpu ∈ (d.processInfo p).futureProcessMask → cpu < S.size := fun cpu hc =>
    System.lt_size (h.future_subset p hc)
  ext cpu
  simp only [cpusToSteal, cpusToAcquire, cpusToFree, (h.slot p).clean hclean, mem_sdiff, mem_union,
    mem_filter, mem_range]
  have := hsize cpu
  tauto

theorem setNewMask_sound (h : Sound S d) (hpid : (d.processInfo p).pid ≠ 0) (hclean : (d.processInfo p).dirty = false)
    (mask : CpuSet) (returnStolen : Bool) :
    ((setNewMask S d p mask returnStolen).2.error = .success ∧ Sound S (setNewMask S d p mask returnStolen).1 ∧
      ((setNewMask S d p mask returnStolen).1.processInfo p).futureProcessMask = {cpu ∈ mask | cpu < S.size}) ∨
    ((setNewMask S d p mask returnStolen).2.error ≠ .success ∧ (setNewMask S d p mask returnStolen).1 = d) := by
  have hfit : Fits S (cpusToSteal S d (d.processInfo p) mask) := fits_of_lt_size fun cpu hc =>
    mem_range.mp (mem_filter.mp hc).1
  unfold setNewMask
  rw [if_neg (by simp [h.sharing])]
  dsimp only
  rw [stealMask_dry]
  split
  · rename_i hdry
    exact .inr ⟨hdry, rfl⟩
  rename_i hdry
  obtain ⟨hok, hs, hfree, hfuture, hpid', hcurrent⟩ := stealMask_sound h hfit hpid (not_not.mp hdry)
  rw [if_neg (not_not.mpr hok)]
  generalize (stealMask S d p (cpusToSteal S d (d.processInfo p) mask) false).1 = d1 at hs hfree hfuture hpid' ⊢
  have hacquire : cpusToAcquire S d mask ⊆ d1.freeMask := by
    rw [hfree]
    exact fun cpu hc => (mem_filter.mp hc).2.2
  obtain ⟨info, heq, hs2, hfuture₂, hpid2, -⟩ := registerMask_sound (p := p) hs hacquire fun _ => hpid' ▸ hpid
  rw [heq]
  generalize hd2 : { d1 with freeMask := d1.freeMask \ cpusToAcquire S d mask }.set p info = d2 at hs2 ⊢
  have hslot2 : d2.processInfo p = info := by rw [← hd2, set_same_slot]
  have hsub : cpusToFree S (d.processInfo p) mask ⊆ (d2.processInfo p).futureProcessMask := by
    rw [hslot2, hfuture₂, hfuture, ← (h.slot p).clean hclean]
    intro cpu hc
    exact mem_union_left _ (mem_union_left _ (mem_filter.mp hc).2.2)
  obtain ⟨hs3, hfuture₃⟩ := unregisterMask_sound hs2 hsub returnStolen
  refine .inl ⟨rfl, hs3, ?_⟩
  rw [if_neg (by simp), hfuture₃, hslot2, hfuture₂, hfuture, classes_eq h hclean]

theorem Sound.resolve (h : Sound S d) (p : ℕ) : Sound S (d.modify p resolve) := by
  have hp := h.slot p
  refine h.set ⟨fun _ => rfl, hp.stolen, h.future_subset p, hp.lost, fun hz => ?_⟩ (h.holder p).symm
  exact ⟨rfl, (hp.vacant hz).2⟩

end Dlb.Procinfo

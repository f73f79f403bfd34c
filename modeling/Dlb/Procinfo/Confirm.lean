import Dlb.Procinfo.Partition

/-!
# A dirty process that confirms its pending mask

`shmem_procinfo__setprocessmask_self` lets a dirty process pass its pending mask. `set_new_mask` compares that mask
with the current one, which is out of date: CPUs granted since look as if they had to be stolen, and the call fails
(`setNewMask_pending_error`); CPUs lost since look as if they had to be freed (`setNewMask_pending`), although others
may own them by now. So the call is harmless only when what it frees is free already, or goes back to the caller itself
(`Harmless`, `confirm_iff`).
-/

namespace Dlb.Procinfo

open List

variable {S : System} {d d' : Shdata} {p : ℕ} {m : CpuSet} {flags : DromFlags}

/-! ## What the call does -/

theorem stealLoop_own (h : Sound S d) (hm : m ⊆ (d.processInfo p).futureProcessMask) (ps : List ℕ) (left : CpuSet) :
    ((stealLoop S p m true ps d left).2.1 = left ∧ (stealLoop S p m true ps d left).2.2 = .success) ∨
      (stealLoop S p m true ps d left).2.2 = .errPerm := by
  induction ps with
  | nil => exact .inl ⟨rfl, rfl⟩
  | cons q ps ih =>
    simp only [stealLoop, stealFrom, if_true]
    split
    · rename_i hq
      split
      · exact .inr rfl
      · -- a victim that is not dirty owns its current mask
        exfalso
        rename_i hclean
        obtain ⟨cpu, hcpu⟩ := Finset.nonempty_iff_ne_empty.mpr hq.2.2
        obtain ⟨hcq, hcm⟩ := Finset.mem_inter.mp hcpu
        rw [h.current_eq (by simpa using hclean)] at hcq
        refine h.part.notMem (x := some q) (y := some p) (by simpa using hq.1) hcq ?_
        rw [h.holder]
        exact hm hcm
    · exact ih

theorem stealMask_own (h : Sound S d) (hm : m ⊆ (d.processInfo p).futureProcessMask) (hne : m ≠ ∅) :
    (stealMask S d p m true).2 = .errPerm := by
  unfold stealMask
  rw [if_neg hne]
  dsimp only
  rw [if_pos rfl]
  rcases stealLoop_own h hm (range d.numProcesses) m with ⟨hleft, hok⟩ | herror
  · rw [hleft, hok]
    simp [stealError, hne]
  · rw [herror]
    simp [stealError]

/-- The CPUs that the process has lost since it last updated its mask. -/
def lostSince (d : Shdata) (p : ℕ) : CpuSet :=
  (d.processInfo p).currentProcessMask \ (d.processInfo p).futureProcessMask

theorem cpusToFree_pending (h : Sound S d) (p : ℕ) :
    cpusToFree S (d.processInfo p) (d.processInfo p).futureProcessMask = lostSince d p := by
  ext cpu
  simp only [cpusToFree, lostSince, Finset.mem_filter, Finset.mem_range, Finset.mem_sdiff]
  constructor
  · rintro ⟨-, hf, hc⟩
    exact ⟨hc, hf⟩
  · rintro ⟨hc, hf⟩
    exact ⟨System.lt_size ((h.slot p).current hc), hf, hc⟩

theorem cpusToSteal_pending (h : Sound S d) (p : ℕ) :
    cpusToSteal S d (d.processInfo p) (d.processInfo p).futureProcessMask =
      (d.processInfo p).futureProcessMask \ (d.processInfo p).currentProcessMask := by
  ext cpu
  simp only [cpusToSteal, Finset.mem_filter, Finset.mem_range, Finset.mem_sdiff]
  constructor
  · rintro ⟨-, hf, -, hc⟩
    exact ⟨hf, hc⟩
  · rintro ⟨hf, hc⟩
    refine ⟨System.lt_size (h.future_subset p hf), hf, fun hfree => ?_, hc⟩
    rw [← h.holder] at hf
    exact h.part.notMem (x := some p) (y := none) (by simp) hf hfree

theorem cpusToAcquire_pending (h : Sound S d) (p : ℕ) :
    cpusToAcquire S d (d.processInfo p).futureProcessMask = ∅ := by
  refine Finset.filter_eq_empty_iff.mpr fun cpu _ => ?_
  rintro ⟨hf, hfree⟩
  rw [← h.holder] at hf
  exact h.part.notMem (x := some p) (y := none) (by simp) hf hfree

theorem setNewMask_pending_error (h : Sound S d) (returnStolen : Bool)
    (hne : ¬(d.processInfo p).futureProcessMask ⊆ (d.processInfo p).currentProcessMask) :
    setNewMask S d p (d.processInfo p).futureProcessMask returnStolen = (d, { error := .errPerm }) := by
  have hsteal : (stealMask S d p (cpusToSteal S d (d.processInfo p) (d.processInfo p).futureProcessMask) true).2 =
      .errPerm := by
    rw [cpusToSteal_pending h]
    refine stealMask_own h Finset.sdiff_subset fun he => hne ?_
    exact Finset.sdiff_eq_empty_iff_subset.mp he
  unfold setNewMask
  rw [if_neg (by simp [h.sharing])]
  rw [if_pos (by rw [hsteal]; simp), hsteal, stealMask_dry]

theorem set_self (d : Shdata) (p : ℕ) : d.set p (d.processInfo p) = d := by
  simp [Shdata.set]

theorem set_set (d : Shdata) (p : ℕ) (info info' : Pinfo) : (d.set p info).set p info' = d.set p info' := by
  simp [Shdata.set]

theorem setNewMask_pending (h : Sound S d) (returnStolen : Bool)
    (hsub : (d.processInfo p).futureProcessMask ⊆ (d.processInfo p).currentProcessMask) :
    setNewMask S d p (d.processInfo p).futureProcessMask returnStolen =
      (unregisterMask S d p (lostSince d p) returnStolen, { error := .success, mask := lostSince d p }) := by
  unfold setNewMask
  rw [if_neg (by simp [h.sharing])]
  dsimp only
  rw [cpusToSteal_pending h, cpusToAcquire_pending h, cpusToFree_pending h,
    Finset.sdiff_eq_empty_iff_subset.mpr hsub]
  simp [stealMask, registerMask, set_self]

/-! ## What happens to the CPUs -/

theorem unregister_lost (h : Sound S d) (hd : (d.processInfo p).dirty = true) :
    unregisterMask S d p (lostSince d p) false = { d with freeMask := d.freeMask ∪ lostSince d p } := by
  unfold unregisterMask
  split
  · rename_i hempty
    rw [hempty, Finset.union_empty]
  rw [if_neg (by simp [h.sharing]), if_neg (by simp)]
  have hfit := fits_of_subset (h.future_subset p)
  have hkeep : (d.processInfo p).futureProcessMask \ lostSince d p = (d.processInfo p).futureProcessMask :=
    Finset.sdiff_eq_self_of_disjoint Finset.disjoint_sdiff
  simp only [Shdata.modify, muSubtract_of_fits hfit hfit, hkeep, ← hd]
  exact set_self _ p

/-- With `DLB_RETURN_STOLEN`, after the loop over `cpus`: each of them has gone to the first process that lost it, or
is free; the entry of the caller only forgets what it lost. -/
structure Returned (d : Shdata) (p : ℕ) (cpus : List ℕ) (d' : Shdata) : Prop where
  free : ∀ x, x ∈ d'.freeMask ↔ x ∈ d.freeMask ∨ (x ∈ cpus ∧ lostBy d x = none)
  kept : ∀ i, i ≠ p → (∀ x ∈ cpus, lostBy d x ≠ some i) → d'.processInfo i = d.processInfo i
  grows : ∀ i, i ≠ p → holders d (some i) ⊆ holders d' (some i)
  given : ∀ x ∈ cpus, ∀ q, q ≠ p → lostBy d x = some q → x ∈ holders d' (some q)
  own : ∃ stolen, stolen ⊆ (d.processInfo p).stolenCpus ∧
    d'.processInfo p = { d.processInfo p with stolenCpus := stolen }
  same : SameEntries d d'

theorem lostBy_congr {x : ℕ} (hs : SameEntries d d')
    (h : ∀ i, x ∈ (d'.processInfo i).stolenCpus ↔ x ∈ (d.processInfo i).stolenCpus) : lostBy d' x = lostBy d x := by
  unfold lostBy
  simp only [hs.num, hs.pid, h]

theorem unregisterCpu_lost {cpu : ℕ} (hd : (d.processInfo p).dirty = true)
    (hcpu : cpu ∉ (d.processInfo p).futureProcessMask) :
    unregisterCpu p d cpu =
      match lostBy d cpu with
      | none => { d with freeMask := insert cpu d.freeMask }
      | some q =>
        if q = p then d.set p { d.processInfo p with stolenCpus := (d.processInfo p).stolenCpus.erase cpu }
        else d.set q (givenBack (d.processInfo q) cpu) := by
  have hself : { d.processInfo p with
      futureProcessMask := (d.processInfo p).futureProcessMask.erase cpu
      dirty := true } = d.processInfo p := by
    rw [Finset.erase_eq_of_notMem hcpu, ← hd]
  unfold unregisterCpu giveBack
  cases lostBy d cpu with
  | none =>
    simp only [Shdata.modify, hself]
    exact set_self _ p
  | some q =>
    dsimp only
    split
    · rename_i hq
      subst hq
      simp only [Shdata.modify, set_same_slot, set_set, givenBack, Finset.erase_insert hcpu, ← hd]
    · rename_i hq
      simp only [Shdata.modify, set_other_slot _ _ (Ne.symm hq), hself]
      have := set_self (d.set q (givenBack (d.processInfo q) cpu)) p
      rwa [set_other_slot _ _ (Ne.symm hq)] at this

theorem unregisterCpu_returned {cpu : ℕ} (hok : ∀ i, (d.processInfo i).Ok S) (hd : (d.processInfo p).dirty = true)
    (hcpu : cpu ∉ (d.processInfo p).futureProcessMask) :
    Returned d p [cpu] (unregisterCpu p d cpu) ∧ (∀ i, ((unregisterCpu p d cpu).processInfo i).Ok S) ∧
      ∀ x, x ≠ cpu → lostBy (unregisterCpu p d cpu) x = lostBy d x := by
  have hs := unregisterCpu_same p d cpu
  rw [unregisterCpu_lost hd hcpu] at hs ⊢
  cases hl : lostBy d cpu with
  | none =>
    simp only [hl] at hs ⊢
    refine ⟨⟨fun x => ?_, fun _ _ _ => rfl, fun _ _ => subset_rfl, ?_, ⟨_, subset_rfl, rfl⟩, hs⟩, hok, ?_⟩
    · simp only [Finset.mem_insert, mem_singleton]
      constructor
      · rintro (rfl | hx)
        · exact .inr ⟨rfl, hl⟩
        · exact .inl hx
      · rintro (hx | ⟨rfl, -⟩)
        · exact .inr hx
        · exact .inl rfl
    · intro x hx q _ hq
      rw [mem_singleton.mp hx, hl] at hq
      cases hq
    · intro x _
      exact lostBy_congr hs fun _ => Iff.rfl
  | some q =>
    obtain ⟨-, hq, -⟩ := Lib.scan_some hl
    simp only [ne_eq, decide_eq_true_eq] at hq
    -- the free CPUs stay, and who lost another CPU too
    have hfree : ∀ x, x ∈ d.freeMask ↔ x ∈ d.freeMask ∨ (x ∈ [cpu] ∧ lostBy d x = none) := by
      intro x
      refine ⟨.inl, ?_⟩
      rintro (hx | ⟨hx, hnone⟩)
      · exact hx
      · rw [mem_singleton.mp hx, hl] at hnone
        cases hnone
    by_cases hqp : q = p
    · subst hqp
      simp only [hl, if_true] at hs ⊢
      refine ⟨⟨hfree, fun i hi _ => set_other_slot _ _ hi, fun i hi => ?_, ?_,
        ⟨_, Finset.erase_subset _ _, set_same_slot _ _ _⟩, hs⟩, ok_set hok ?_, fun x hx => lostBy_congr hs fun i => ?_⟩
      · rw [holders_set_other _ _ (by simpa using hi)]
      · intro x hx q' hq' hl'
        rw [mem_singleton.mp hx, hl] at hl'
        exact absurd (Option.some.inj hl').symm hq'
      · refine .of_dirty hd hq.1 ?_ (hok q).current ((Finset.erase_subset _ _).trans (hok q).lost)
        exact Finset.disjoint_of_subset_left (Finset.erase_subset _ _) (hok q).stolen
      · by_cases hi : i = q
        · subst hi
          simp [hx]
        · rw [set_other_slot _ _ hi]
    · simp only [hl, if_neg hqp] at hs ⊢
      refine ⟨⟨hfree, fun i hi hne => ?_, fun i hi => ?_, ?_, ⟨_, subset_rfl, set_other_slot _ _ (Ne.symm hqp)⟩, hs⟩,
        ok_set hok (givenBack_ok (hok q) hq.1 cpu), fun x hx => lostBy_congr hs fun i => ?_⟩
      · refine set_other_slot _ _ fun he => hne cpu mem_cons_self ?_
        rw [hl, he]
      · by_cases hi' : i = q
        · subst hi'
          rw [holders_set_self, holders, (hok i).effective]
          exact Finset.subset_insert _ _
        · rw [holders_set_other _ _ (by simpa using hi')]
      · intro x hx q' _ hl'
        rw [mem_singleton.mp hx] at hl' ⊢
        rw [hl] at hl'
        obtain rfl := Option.some.inj hl'
        rw [holders_set_self]
        exact Finset.mem_insert_self _ _
      · by_cases hi : i = q
        · subst hi
          simp [givenBack, hx]
        · rw [set_other_slot _ _ hi]

theorem foldl_returned (cpus : List ℕ) (hnodup : cpus.Nodup) (hok : ∀ i, (d.processInfo i).Ok S)
    (hd : (d.processInfo p).dirty = true) (hcpus : ∀ cpu ∈ cpus, cpu ∉ (d.processInfo p).futureProcessMask) :
    Returned d p cpus (cpus.foldl (unregisterCpu p) d) := by
  induction cpus generalizing d with
  | nil =>
    exact ⟨fun x => by simp, fun _ _ _ => rfl, fun _ _ => subset_rfl, fun x hx => by simp at hx,
      ⟨_, subset_rfl, rfl⟩, .refl d⟩
  | cons cpu rest ih =>
    obtain ⟨hnot, hrest⟩ := nodup_cons.mp hnodup
    obtain ⟨h1, hok1, hlost⟩ := unregisterCpu_returned (S := S) hok hd (hcpus cpu mem_cons_self)
    rw [foldl_cons]
    generalize unregisterCpu p d cpu = d1 at h1 hok1 hlost ⊢
    obtain ⟨stolen, hstolen, hown⟩ := h1.own
    have h2 := ih hrest hok1 (by rw [hown]; exact hd) fun x hx => by
      rw [hown]
      exact hcpus x (mem_cons_of_mem _ hx)
    have hlost' : ∀ x ∈ rest, lostBy d1 x = lostBy d x := by
      intro x hx
      refine hlost x ?_
      rintro rfl
      exact hnot hx
    constructor
    · intro x
      rw [h2.free, h1.free]
      simp only [mem_cons, not_mem_nil, or_false]
      constructor
      · rintro ((hx | ⟨rfl, hx⟩) | ⟨hx, hnone⟩)
        · exact .inl hx
        · exact .inr ⟨.inl rfl, hx⟩
        · exact .inr ⟨.inr hx, hlost' x hx ▸ hnone⟩
      · rintro (hx | ⟨rfl | hx, hnone⟩)
        · exact .inl (.inl hx)
        · exact .inl (.inr ⟨rfl, hnone⟩)
        · exact .inr ⟨hx, (hlost' x hx).trans hnone⟩
    · intro i hi hne
      rw [h2.kept i hi fun x hx => ?_, h1.kept i hi fun x hx => ?_]
      · rw [mem_singleton.mp hx]
        exact hne cpu mem_cons_self
      · rw [hlost' x hx]
        exact hne x (mem_cons_of_mem _ hx)
    · intro i hi
      exact (h1.grows i hi).trans (h2.grows i hi)
    · intro x hx q hq hl
      rcases mem_cons.mp hx with rfl | hx
      · exact h2.grows q hq (h1.given x mem_cons_self q hq hl)
      · exact h2.given x hx q hq ((hlost' x hx).trans hl)
    · obtain ⟨stolen', hstolen', hown'⟩ := h2.own
      rw [hown] at hstolen' hown'
      exact ⟨stolen', hstolen'.trans hstolen, hown'⟩
    · exact h1.same.trans h2.same

theorem unregister_returned (h : Sound S d) (hd : (d.processInfo p).dirty = true) :
    ∃ cpus : List ℕ, (∀ x, x ∈ cpus ↔ x ∈ lostSince d p) ∧
      Returned d p cpus (unregisterMask S d p (lostSince d p) true) := by
  refine ⟨(range S.size).filter (· ∈ lostSince d p), fun x => ?_, ?_⟩
  · simp only [mem_filter, mem_range, decide_eq_true_eq, and_iff_right_iff_imp]
    exact fun hx => System.lt_size ((h.slot p).current (Finset.mem_sdiff.mp hx).1)
  · have hmem : ∀ x ∈ (range S.size).filter (· ∈ lostSince d p), x ∉ (d.processInfo p).futureProcessMask := by
      intro x hx
      have hx : x ∈ lostSince d p := by simpa using (mem_filter.mp hx).2
      exact (Finset.mem_sdiff.mp hx).2
    have hfold := foldl_returned _ (nodup_range.filter _) h.slot hd hmem
    unfold unregisterMask
    split
    · rename_i hempty
      have hnil : (range S.size).filter (· ∈ lostSince d p) = [] := by simp [hempty]
      rw [hnil] at hfold ⊢
      exact hfold
    · rw [if_neg (by simp [h.sharing]), if_pos rfl]
      exact hfold

/-! ## When the call is harmless -/

/-- The CPU that the caller would free is free already, or it would be given back to the caller itself, which at once
loses it again. -/
def Settled (d : Shdata) (p : ℕ) (returnStolen : Bool) (cpu : ℕ) : Prop :=
  (lostBy d cpu = none ∨ returnStolen = false) ∧ cpu ∈ d.freeMask ∨ returnStolen = true ∧ lostBy d cpu = some p

/-- A dirty process in slot `p` may confirm its pending mask: it has been granted CPUs since, and the call fails, or all
that it has lost since is settled. -/
def Harmless (d : Shdata) (p : ℕ) (returnStolen : Bool) : Prop :=
  (d.processInfo p).futureProcessMask ⊆ (d.processInfo p).currentProcessMask →
    ∀ cpu ∈ lostSince d p, Settled d p returnStolen cpu

theorem unregister_settled (h : Sound S d) (hd : (d.processInfo p).dirty = true) {returnStolen : Bool}
    (hset : ∀ cpu ∈ lostSince d p, Settled d p returnStolen cpu) :
    (unregisterMask S d p (lostSince d p) returnStolen).freeMask = d.freeMask ∧
    (∀ i, i ≠ p → (unregisterMask S d p (lostSince d p) returnStolen).processInfo i = d.processInfo i) ∧
    ∃ stolen, stolen ⊆ (d.processInfo p).stolenCpus ∧
      (unregisterMask S d p (lostSince d p) returnStolen).processInfo p =
        { d.processInfo p with stolenCpus := stolen } := by
  cases returnStolen with
  | false =>
    rw [unregister_lost h hd]
    refine ⟨Finset.union_eq_left.mpr fun cpu hc => ?_, fun _ _ => rfl, _, subset_rfl, rfl⟩
    rcases hset cpu hc with hf | ⟨hr, -⟩
    · exact hf.2
    · cases hr
  | true =>
    obtain ⟨cpus, hmem, hr⟩ := unregister_returned h hd
    have hset' : ∀ cpu ∈ cpus, lostBy d cpu = none ∧ cpu ∈ d.freeMask ∨ lostBy d cpu = some p := by
      intro cpu hc
      rcases hset cpu ((hmem cpu).mp hc) with ⟨hnone | hf, hfree⟩ | ⟨-, hp⟩
      · exact .inl ⟨hnone, hfree⟩
      · cases hf
      · exact .inr hp
    refine ⟨?_, fun i hi => hr.kept i hi fun x hx hl => ?_, hr.own⟩
    · ext x
      rw [hr.free]
      refine ⟨?_, .inl⟩
      rintro (hx | ⟨hx, hnone⟩)
      · exact hx
      · rcases hset' x hx with hs | hs
        · exact hs.2
        · rw [hnone] at hs
          cases hs
    · rcases hset' x hx with hs | hs
      · rw [hs.1] at hl
        cases hl
      · exact hi (Option.some.inj (hl.symm.trans hs))

theorem unregister_settled_sound (h : Sound S d) (hd : (d.processInfo p).dirty = true)
    (hpid : (d.processInfo p).pid ≠ 0) {returnStolen : Bool}
    (hset : ∀ cpu ∈ lostSince d p, Settled d p returnStolen cpu) :
    Sound S (unregisterMask S d p (lostSince d p) returnStolen) := by
  have hsame := unregisterMask_same S d p (lostSince d p) returnStolen
  obtain ⟨hfree, hother, stolen, hstolen, hown⟩ := unregister_settled h hd hset
  refine ⟨h.part.congr fun z => ?_, fun i => ?_, hsame.sharing.trans h.sharing⟩
  · cases z with
    | none => exact hfree
    | some i =>
      by_cases hi : i = p
      · subst hi
        simp only [holders, hown]
        rfl
      · simp only [holders, hother i hi]
  · by_cases hi : i = p
    · subst hi
      rw [hown]
      refine .of_dirty hd hpid ?_ (h.slot i).current (hstolen.trans (h.slot i).lost)
      exact Finset.disjoint_of_subset_left hstolen (h.slot i).stolen
    · rw [hother i hi]
      exact h.slot i

/-- A holder of the CPU that is not the process in slot `p`: the `free_mask` or a registered process. -/
def HeldBy (d : Shdata) (p cpu : ℕ) (x : Option ℕ) : Prop :=
  x ≠ some p ∧ cpu ∈ holders d x ∧ ∀ i, x = some i → (d.processInfo i).pid ≠ 0

theorem unregister_unsettled (h : Sound S d) (hd : (d.processInfo p).dirty = true) {returnStolen : Bool} {cpu : ℕ}
    (hc : cpu ∈ lostSince d p) (hset : ¬Settled d p returnStolen cpu) :
    ∃ x y, x ≠ y ∧ HeldBy (unregisterMask S d p (lostSince d p) returnStolen) p cpu x ∧
      HeldBy (unregisterMask S d p (lostSince d p) returnStolen) p cpu y := by
  have hsame := unregisterMask_same S d p (lostSince d p) returnStolen
  -- the holder before the call
  obtain ⟨x, hx⟩ := (h.part.cover cpu).mp ((h.slot p).current (Finset.mem_sdiff.mp hc).1)
  have hxp : x ≠ some p := by
    rintro rfl
    rw [h.holder] at hx
    exact (Finset.mem_sdiff.mp hc).2 hx
  have hreg : ∀ i, x = some i → ((unregisterMask S d p (lostSince d p) returnStolen).processInfo i).pid ≠ 0 := by
    rintro i rfl
    rw [hsame.pid]
    exact h.registered hx
  cases returnStolen with
  | false =>
    have hnone : x ≠ none := by
      rintro rfl
      exact hset (.inl ⟨.inr rfl, hx⟩)
    rw [unregister_lost h hd] at hreg ⊢
    refine ⟨x, none, hnone, ⟨hxp, ?_, hreg⟩, by simp, Finset.mem_union_right _ hc, by simp⟩
    cases x with
    | none => exact absurd rfl hnone
    | some i => exact hx
  | true =>
    obtain ⟨cpus, hmem, hr⟩ := unregister_returned h hd
    have hcs := (hmem cpu).mpr hc
    have hkeep : cpu ∈ holders (unregisterMask S d p (lostSince d p) true) x := by
      cases x with
      | none => exact (hr.free cpu).mpr (.inl hx)
      | some i => exact hr.grows i (fun e => hxp (congrArg some e)) hx
    cases hl : lostBy d cpu with
    | none =>
      have hnone : x ≠ none := by
        rintro rfl
        exact hset (.inl ⟨.inl hl, hx⟩)
      exact ⟨x, none, hnone, ⟨hxp, hkeep, hreg⟩, by simp, (hr.free cpu).mpr (.inr ⟨hcs, hl⟩), by simp⟩
    | some q =>
      have hqp : q ≠ p := by
        rintro rfl
        exact hset (.inr ⟨rfl, hl⟩)
      obtain ⟨-, hq, -⟩ := Lib.scan_some hl
      simp only [ne_eq, decide_eq_true_eq] at hq
      refine ⟨x, some q, ?_, ⟨hxp, hkeep, hreg⟩, by simpa using hqp, hr.given cpu hcs q hqp hl, ?_⟩
      · -- a process that lost the CPU does not own it
        rintro rfl
        rw [h.holder] at hx
        exact Finset.disjoint_left.mp (h.slot q).stolen hq.2 hx
      · rintro i ⟨⟩
        rw [hsame.pid]
        exact hq.1

theorem Divided.not_held_twice {cpu : ℕ} {x y : Option ℕ} (h : Divided S d) (hxy : x ≠ y) (hx : HeldBy d p cpu x)
    (hy : HeldBy d p cpu y) : False := by
  obtain ⟨-, hx, hrx⟩ := hx
  obtain ⟨-, hy, hry⟩ := hy
  cases x with
  | none =>
    cases y with
    | none => exact hxy rfl
    | some j => exact Finset.disjoint_left.mp (h.free j (hry j rfl)) hy hx
  | some i =>
    cases y with
    | none => exact Finset.disjoint_left.mp (h.free i (hrx i rfl)) hx hy
    | some j =>
      refine Finset.disjoint_left.mp (h.apart i j ?_ (hrx i rfl) (hry j rfl)) hx hy
      exact fun e => hxy (congrArg some e)

/-! ## The call as a whole -/

/-- What a call of the process in slot `p` must not do to the others: the CPUs stay divided, no CPU of another process
is freed, no mask of another process loses a CPU; and on success the caller has its mask, unless it asked not to. -/
structure Undisturbed (S : System) (d : Shdata) (p : ℕ) (mask : CpuSet) (noSync : Bool) (r : Shdata × Output) :
    Prop where
  divided : Divided S r.1
  free : ∀ q, q ≠ p → Disjoint (d.processInfo q).effective r.1.freeMask
  others : ∀ q, q ≠ p →
    (d.processInfo q).currentProcessMask ⊆ (r.1.processInfo q).currentProcessMask ∧
    (d.processInfo q).futureProcessMask ⊆ (r.1.processInfo q).futureProcessMask ∧
    (d.processInfo q).stolenCpus ⊆ (r.1.processInfo q).stolenCpus
  own : r.2.error = .success → noSync = false →
    (r.1.processInfo p).currentProcessMask = mask ∧ (r.1.processInfo p).futureProcessMask = mask

theorem setprocessmaskSelf_pending (h : Sound S d) (p : ℕ) (flags : DromFlags) :
    setprocessmaskSelf S d p (d.processInfo p).futureProcessMask flags =
      if (d.processInfo p).futureProcessMask ⊆ (d.processInfo p).currentProcessMask then
        (if flags.noSync then unregisterMask S d p (lostSince d p) flags.returnStolen
          else (unregisterMask S d p (lostSince d p) flags.returnStolen).modify p resolve,
          { error := .success, mask := lostSince d p })
      else (d, { error := .errPerm }) := by
  have hown : setOwnMask S d p (d.processInfo p).futureProcessMask flags.returnStolen =
      setNewMask S d p (d.processInfo p).futureProcessMask flags.returnStolen := if_pos (.inr rfl)
  unfold setprocessmaskSelf
  dsimp only
  rw [hown]
  split
  · rename_i hcond
    split
    · rename_i hsub
      rw [setNewMask_pending h _ hsub, if_neg (by simpa using hcond.2)]
    · rename_i hsub
      rw [setNewMask_pending_error h _ hsub] at hcond
      cases hcond.1
  · rename_i hcond
    split
    · rename_i hsub
      rw [setNewMask_pending h _ hsub] at hcond ⊢
      rw [if_pos (by simpa using hcond)]
    · rename_i hsub
      exact setNewMask_pending_error h _ hsub

theorem confirm_sound (h : Sound S d) (hd : (d.processInfo p).dirty = true) (hpid : (d.processInfo p).pid ≠ 0)
    (hh : Harmless d p flags.returnStolen) :
    Sound S (setprocessmaskSelf S d p (d.processInfo p).futureProcessMask flags).1 ∧
    (setprocessmaskSelf S d p (d.processInfo p).futureProcessMask flags).1.freeMask = d.freeMask ∧
    ∀ q, q ≠ p → (setprocessmaskSelf S d p (d.processInfo p).futureProcessMask flags).1.processInfo q =
      d.processInfo q := by
  rw [setprocessmaskSelf_pending h]
  split
  · rename_i hsub
    have hs := unregister_settled_sound h hd hpid (hh hsub)
    obtain ⟨hfree, hother, -⟩ := unregister_settled h hd (hh hsub)
    cases flags.noSync with
    | true => exact ⟨hs, hfree, hother⟩
    | false =>
      refine ⟨hs.resolve p, hfree, fun q hq => ?_⟩
      simp only [Bool.false_eq_true, if_false, Shdata.modify]
      rw [set_other_slot _ _ hq]
      exact hother q hq
  · exact ⟨h, rfl, fun _ _ => rfl⟩

theorem confirm_iff (h : Sound S d) (hd : (d.processInfo p).dirty = true) (hpid : (d.processInfo p).pid ≠ 0) :
    Undisturbed S d p (d.processInfo p).futureProcessMask flags.noSync
      (setprocessmaskSelf S d p (d.processInfo p).futureProcessMask flags) ↔ Harmless d p flags.returnStolen := by
  constructor
  · intro hu hsub cpu hc
    by_contra hset
    obtain ⟨x, y, hxy, hx, hy⟩ := unregister_unsettled h hd hc hset
    have hdiv := hu.divided
    rw [setprocessmaskSelf_pending h, if_pos hsub] at hdiv
    -- updating the caller's own mask changes no other holder
    have hheld : ∀ z, HeldBy (unregisterMask S d p (lostSince d p) flags.returnStolen) p cpu z →
        HeldBy (if flags.noSync then unregisterMask S d p (lostSince d p) flags.returnStolen
          else (unregisterMask S d p (lostSince d p) flags.returnStolen).modify p resolve) p cpu z := by
      intro z hz
      cases flags.noSync with
      | true => exact hz
      | false =>
        obtain ⟨hzp, hmem, hreg⟩ := hz
        refine ⟨hzp, ?_, fun i hi => ?_⟩
        · rw [if_neg (by simp), Shdata.modify, holders_set_other _ _ hzp]
          exact hmem
        · rw [if_neg (by simp), (resolve_same _ p).pid]
          exact hreg i hi
    exact hdiv.not_held_twice hxy (hheld x hx) (hheld y hy)
  · intro hh
    obtain ⟨hs, hfree, hother⟩ := confirm_sound h hd hpid hh
    refine ⟨hs.divided, fun q _ => ?_, fun q hq => ?_, fun hsucc hsync => ?_⟩
    · rw [hfree]
      exact h.part.disjoint (some q) none (by simp)
    · rw [hother q hq]
      exact ⟨subset_rfl, subset_rfl, subset_rfl⟩
    · rw [setprocessmaskSelf_pending h] at hsucc ⊢
      split at hsucc
      · rename_i hsub
        obtain ⟨-, -, stolen, -, hown⟩ := unregister_settled h hd (hh hsub)
        rw [if_pos hsub, hsync]
        simp only [Bool.false_eq_true, if_false, Shdata.modify, set_same_slot, resolve, hown, and_self]
      · cases hsucc

end Dlb.Procinfo

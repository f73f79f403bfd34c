import Dlb.Procinfo.Confirm

/-!
# Ownership along runs

`Admitted` calls keep the CPUs of the system divided among the processes and the free ones: in every state that they
reach (`ownership_partition`). In such a state, a dirty process may confirm its pending mask without disturbing the
others exactly when that is harmless (`confirm_undisturbed_iff`).
-/

namespace Dlb.Procinfo

open Finset

variable {S : System} {c : Caller} {d d1 : Shdata} {pid preinitPid : Pid} {parents : List Pid} {mask : CpuSet}
  {flags : DromFlags} {p q : ℕ}

/-! ## Init -/

theorem Sound.grow (h : Sound S d) (grows : Bool) : Sound S (d.grow grows) := by
  unfold Shdata.grow
  split
  · exact ⟨h.part.congr fun z => by cases z <;> rfl, h.slot, h.sharing⟩
  · exact h

theorem ok_empty (S : System) : Pinfo.Ok S {} :=
  ⟨fun _ => rfl, disjoint_empty_left _, empty_subset _, empty_subset _, fun _ => ⟨rfl, rfl, rfl⟩⟩

theorem Sound.vacant_holder (h : Sound S d) (hp : (d.processInfo p).pid = 0) : holders d (some p) = ∅ := by
  rw [h.holder, ((h.slot p).vacant hp).2.1]

theorem ok_whole {info : Pinfo} (hpid : info.pid ≠ 0) (hc : info.currentProcessMask = info.futureProcessMask)
    (hs : Disjoint info.stolenCpus info.futureProcessMask) (hl : info.stolenCpus ⊆ S.sysMask)
    (hm : info.futureProcessMask ⊆ S.sysMask) : info.Ok S :=
  ⟨fun _ => hc, hs, hc ▸ hm, hl, fun hz => absurd hz hpid⟩

theorem newProcess_sound (h : Sound S d) (hp : (d.processInfo p).pid = 0) (hpid : pid ≠ 0) (hfit : Fits S mask) :
    Sound S (newProcess S d pid mask p).1 := by
  unfold newProcess
  rcases registerMask_cases h { pid := pid } hfit with ⟨hsub, heq⟩ | heq
  · rw [heq]
    dsimp only
    have hstolen : (if mask = ∅ then { pid := pid } else granted S { pid := pid } mask : Pinfo).stolenCpus = ∅ := by
      split
      · rfl
      · simp [granted, muSubtract, System.write]
    have hpid' : (if mask = ∅ then { pid := pid } else granted S { pid := pid } mask : Pinfo).pid = pid := by
      split <;> rfl
    generalize (if mask = ∅ then { pid := pid } else granted S { pid := pid } mask : Pinfo) = info at hstolen hpid' ⊢
    refine h.grant hsub (ok_whole (by rw [← hpid'] at hpid; exact hpid) rfl ?_ ?_ (hsub.trans h.free_subset)) ?_
    · rw [hstolen]
      exact disjoint_empty_left _
    · rw [hstolen]
      exact empty_subset _
    · rw [h.vacant_holder hp, empty_union]
      rfl
  · rw [heq]
    exact h.set (ok_empty S) (h.vacant_holder hp).symm

/-- The preregistered process does not get back what was stolen from it. -/
def NotRecovering (d : Shdata) (mask : CpuSet) (q : ℕ) : Prop :=
  (d.processInfo q).dirty = false → (d.processInfo q).currentProcessMask ⊆ mask →
    Disjoint (d.processInfo q).stolenCpus mask

theorem expand_sound (h : Sound S d) (hpid : pid ≠ 0) (hclean : (d.processInfo q).dirty = false)
    (hsup : (d.processInfo q).effective ⊆ mask) (hrec : NotRecovering d mask q)
    (hm : mask \ (d.processInfo q).effective ⊆ d.freeMask) :
    Sound S ({ d with freeMask := d.freeMask \ (mask \ (d.processInfo q).effective) }.set q { d.processInfo q with
      pid := pid
      preregistered := false
      currentProcessMask := mask
      futureProcessMask := mask }) := by
  have hok := h.slot q
  have hcover : holders d (some q) ∪ mask \ (d.processInfo q).effective = mask := union_sdiff_of_subset hsup
  have hcurrent : (d.processInfo q).currentProcessMask ⊆ mask := by
    rw [hok.clean hclean, ← hok.effective]
    exact hsup
  refine h.grant hm (ok_whole hpid rfl (hrec hclean hcurrent) hok.lost ?_) ?_
  · rw [← hcover]
    exact union_subset (h.part.subset (some q)) (hm.trans h.free_subset)
  · rw [hcover]
    simp [Pinfo.effective, hclean]

theorem inherited_ok {m : CpuSet} {info : Pinfo} (h : info.Ok S) (hpid : info.pid ≠ 0) (hclean : info.dirty = false) :
    Pinfo.Ok S { info with
      currentProcessMask := info.currentProcessMask \ m
      futureProcessMask := info.futureProcessMask \ m } := by
  refine ⟨fun _ => ?_, ?_, sdiff_subset.trans h.current, h.lost, fun hz => absurd hz hpid⟩
  · rw [h.clean hclean]
  · exact disjoint_of_subset_right sdiff_subset h.stolen

theorem subset_sound (h : Sound S d) (hpid : pid ≠ 0) (hq : (d.processInfo q).pid ≠ 0)
    (hp : (d.processInfo p).pid = 0) (hclean : (d.processInfo q).dirty = false) {m : CpuSet}
    (hm : m ⊆ (d.processInfo q).effective) :
    Sound S ((d.set p { pid := pid, currentProcessMask := m, futureProcessMask := m }).set q { d.processInfo q with
      currentProcessMask := (d.processInfo q).currentProcessMask \ m
      futureProcessMask := (d.processInfo q).futureProcessMask \ m }) := by
  have hqp : q ≠ p := by
    rintro rfl
    exact hq hp
  refine h.transfer hqp hm (inherited_ok (h.slot q) hq hclean) ?_ ?_ ?_
  · refine ok_whole hpid rfl (disjoint_empty_left _) (empty_subset _) ?_
    exact hm.trans (h.part.subset (some q))
  · rw [holders]
    simp [Pinfo.effective, hclean]
  · rw [h.vacant_holder hp, empty_union]
    rfl

theorem split_sound (h : Sound S d) (hpid : pid ≠ 0) (hq : (d.processInfo q).pid ≠ 0)
    (hp : (d.processInfo p).pid = 0) (hclean : (d.processInfo q).dirty = false)
    (hm : mask \ (d.processInfo q).effective ⊆ d.freeMask) :
    Sound S (({ d with freeMask := d.freeMask \ (mask \ (d.processInfo q).effective) }.set p { d.processInfo p with
      pid := pid
      preregistered := false
      currentProcessMask := mask
      futureProcessMask := mask }).set q { d.processInfo q with
      currentProcessMask := (d.processInfo q).currentProcessMask \ mask
      futureProcessMask := (d.processInfo q).futureProcessMask \ mask }) := by
  have hqp : q ≠ p := by
    rintro rfl
    exact hq hp
  obtain ⟨hpd, -, hps⟩ := (h.slot p).vacant hp
  have hpq : some q ≠ some p := by simpa using hqp
  -- first the free CPUs
  have h1 : Sound S ({ d with freeMask := d.freeMask \ (mask \ (d.processInfo q).effective) }.set p { d.processInfo p with
      pid := pid
      currentProcessMask := mask \ (d.processInfo q).effective
      futureProcessMask := mask \ (d.processInfo q).effective }) := by
    refine h.grant hm (ok_whole hpid rfl ?_ (h.slot p).lost (hm.trans h.free_subset)) ?_
    · rw [hps]
      exact disjoint_empty_left _
    · rw [h.vacant_holder hp, empty_union]
      simp [Pinfo.effective, hpd]
  have hholder : ∀ info, holders ({ d with freeMask := d.freeMask \ (mask \ (d.processInfo q).effective) }.set p info)
      (some q) = (d.processInfo q).effective := fun info => holders_set_other _ _ hpq
  have hmask : mask \ (d.processInfo q).effective ∪ (d.processInfo q).effective ∩ mask = mask := by
    rw [inter_comm, sdiff_union_inter]
  have hok : Pinfo.Ok S { d.processInfo p with
      pid := pid
      preregistered := false
      currentProcessMask := mask
      futureProcessMask := mask } := by
    refine ok_whole hpid rfl (by rw [hps]; exact disjoint_empty_left _) (h.slot p).lost ?_
    rw [← hmask]
    exact union_subset (hm.trans h.free_subset) (inter_subset_left.trans (h.part.subset (some q)))
  -- then those of the preregistered process
  have h2 := h1.transfer (m := (d.processInfo q).effective ∩ mask) hqp (by rw [hholder]; exact inter_subset_left)
    (inherited_ok (m := mask) (h.slot q) hq hclean) hok ?_ ?_
  · rwa [set_set] at h2
  · rw [hholder, sdiff_inter_self_left]
    simp [Pinfo.effective, hclean]
  · rw [holders_set_self]
    simp only [Pinfo.effective, hpd, Bool.false_eq_true, if_false]
    exact hmask.symm

theorem inheritProcess_sound {spot : Option ℕ} (h : Sound S d) (hpid : pid ≠ 0) (hq : (d.processInfo q).pid ≠ 0)
    (hspot : ∀ p, spot = some p → (d.processInfo p).pid = 0) (hfit : Fits S mask) (hrec : NotRecovering d mask q) :
    Sound S (inheritProcess S d pid mask q spot).1 := by
  have hok := h.slot q
  have hfits : Fits S (d.processInfo q).effective := fits_of_subset (h.part.subset (some q))
  have hnew : muSubtract S ∅ mask (d.processInfo q).effective = mask \ (d.processInfo q).effective :=
    muSubtract_of_fits (fun _ hc => by cases hc) hfit
  have hnewfit : Fits S (mask \ (d.processInfo q).effective) := fun x hx => hfit x (mem_sdiff.mp hx).1
  -- the placeholder process takes free CPUs, or nothing happens
  have hreg := registerMask_cases h {} hnewfit
  have hsubtract : ∀ m, muSubtract S (d.processInfo q).currentProcessMask (d.processInfo q).currentProcessMask m =
        (d.processInfo q).currentProcessMask \ m ∧
      muSubtract S (d.processInfo q).futureProcessMask (d.processInfo q).futureProcessMask m =
        (d.processInfo q).futureProcessMask \ m := by
    intro m
    have h1 := fits_of_subset hok.current
    have h2 := fits_of_subset (h.future_subset q)
    exact ⟨muSubtract_of_fits h1 h1, muSubtract_of_fits h2 h2⟩
  unfold inheritProcess
  dsimp only
  rw [hnew]
  split
  · exact h.set ⟨hok.clean, hok.stolen, hok.current, hok.lost, fun hz => absurd hz hpid⟩ rfl
  split
  · rename_i hB
    split
    · exact h
    rename_i hclean
    have hsup : (d.processInfo q).effective ⊆ mask := by
      simp only [muIsProperSuperset, muIsSubset, Bool.and_eq_true, decide_eq_true_eq] at hB
      rw [filter_true_of_mem hfits] at hB
      exact hB.1
    rcases hreg with ⟨hm, heq⟩ | heq
    · rw [heq]
      exact expand_sound h hpid (by simpa using hclean) hsup hrec hm
    · rw [heq]
      exact h
  split
  · split
    · exact h
    rename_i hclean
    split
    · exact h
    rename_i p
    have hp := hspot p rfl
    have hqp : q ≠ p := fun e => hq (e ▸ hp)
    simp only [Shdata.modify, set_other_slot _ _ hqp, (hsubtract _).1, (hsubtract _).2]
    exact subset_sound h hpid hq hp (by simpa using hclean) inter_subset_left
  · split
    · exact h
    rename_i hclean
    split
    · exact h
    rename_i p
    have hp := hspot p rfl
    have hqp : q ≠ p := fun e => hq (e ▸ hp)
    rcases hreg with ⟨hm, heq⟩ | heq
    · rw [heq]
      simp only [if_true, Shdata.modify, set_other_slot _ _ hqp, (hsubtract _).1, (hsubtract _).2]
      exact split_sound h hpid hq hp (by simpa using hclean) hm
    · rw [heq]
      exact h

/-! ## The invariant of runs -/

/-- The invariant: zeroed memory, or divided CPUs. -/
structure Inv (S : System) (d : Shdata) : Prop where
  bounded : Bounded d
  zeroed : d.initialized = false → d = {}
  sound : d.initialized = true → Sound S d

theorem inv_zeroed (S : System) : Inv S {} := ⟨⟨fun _ _ => rfl, fun _ => rfl⟩, fun _ => rfl, fun h => by cases h⟩

theorem sound_of_zeroed (hfree : d.freeMask = S.sysMask) (htable : ∀ i, d.processInfo i = {})
    (hs : d.allowCpuSharing = false) : Sound S d := by
  refine ⟨⟨fun x y hxy => ?_, fun cpu => ?_⟩, fun i => by rw [htable i]; exact ok_empty S, hs⟩
  · cases x with
    | none =>
      cases y with
      | none => exact absurd rfl hxy
      | some j =>
        simp only [holders, htable]
        exact disjoint_empty_right _
    | some i =>
      simp only [holders, htable]
      exact disjoint_empty_left _
  · constructor
    · intro hc
      exact ⟨none, by rw [holders, hfree]; exact hc⟩
    · rintro ⟨x, hx⟩
      cases x with
      | none => rwa [holders, hfree] at hx
      | some i =>
        simp only [holders, htable] at hx
        cases hx

theorem Inv.opened (h : Inv S d) (ho : Opened S false d d1) : Sound S d1 := by
  cases hinit : d.initialized with
  | true =>
    have hs := h.sound hinit
    refine ⟨hs.part.congr fun z => ?_, fun i => ?_, ho.sharing⟩
    · cases z with
      | none => exact (ho.old hinit).2
      | some i => simp only [holders, ho.table]
    · rw [ho.table]
      exact hs.slot i
  | false =>
    refine sound_of_zeroed (ho.new hinit).2 (fun i => ?_) ho.sharing
    rw [ho.table, h.zeroed hinit]

theorem init_sound (h : Inv S d) (hpid : pid ≠ 0) (hfit : Fits S mask)
    (hrec : preinitPid ≠ 0 → ∀ q, (d.processInfo q).pid = preinitPid → NotRecovering d mask q) :
    (init S c d pid preinitPid mask false).1 = d ∨
      Sound S (init S c d pid preinitPid mask false).1 ∧ (init S c d pid preinitPid mask false).1.initialized = true := by
  unfold init
  cases hopen : openShmem S c d false with
  | error error => exact .inl rfl
  | ok d1 =>
    right
    have ho := openShmem_opened hopen
    have hs := h.opened ho
    have hb := ho.bounded h.bounded
    dsimp only
    cases hfind : findSlots d1 pid preinitPid (List.range d1.numProcesses) (none, none) with
    | error error => exact ⟨hs, ho.initialized⟩
    | ok found =>
      obtain ⟨f, pre⟩ := found
      have hf := findSlots_found hfind
      dsimp only
      rcases hspot : emptySpot c d1 f with ⟨spot, isLast⟩
      have hempty : ∀ p, spot = some p → (d1.processInfo p).pid = 0 := by
        rintro p rfl
        exact (emptySpot_some hb hf.empty hspot).1
      cases pre with
      | none =>
        cases spot with
        | none => exact ⟨hs, ho.initialized⟩
        | some p =>
          refine ⟨(newProcess_sound hs (hempty p rfl) hpid hfit).grow _, ?_⟩
          rw [grow_initialized, (newProcess_cases S d1 pid mask p).2.1]
          exact ho.initialized
      | some q =>
        obtain ⟨-, h0, hq, -⟩ := hf.preinit q rfl
        refine ⟨(inheritProcess_sound hs hpid (by rw [hq]; exact h0) hempty hfit ?_).grow _, ?_⟩
        · rw [ho.table] at hq
          have := hrec h0 q hq
          unfold NotRecovering at this ⊢
          rwa [ho.table]
        · rw [grow_initialized, (inheritProcess_num S d1 pid mask q spot).2]
          exact ho.initialized

/-! ## Preinit -/

theorem takeMask_sound (h : Sound S d) (hpid : (d.processInfo p).pid ≠ 0) (hclean : (d.processInfo p).dirty = false)
    (hown : (d.processInfo p).futureProcessMask = ∅)
    (hm : if flags.stealCpus then ∀ cpu ∈ mask, cpu < S.size else Fits S mask) :
    ((takeMask S d p mask flags).2 = .success ∧ Sound S (takeMask S d p mask flags).1 ∧
      ((takeMask S d p mask flags).1.processInfo p).futureProcessMask = mask) ∨
    ((takeMask S d p mask flags).2 ≠ .success ∧ (takeMask S d p mask flags).1 = d) := by
  unfold takeMask
  split
  · rename_i hsteal
    rw [if_pos hsteal] at hm
    rcases setNewMask_sound h hpid hclean mask flags.returnStolen with ⟨hok, hs, hfuture⟩ | hfail
    · exact .inl ⟨hok, hs, by rw [hfuture, filter_true_of_mem hm]⟩
    · exact .inr hfail
  · rename_i hsteal
    rw [if_neg hsteal] at hm
    rcases registerMask_cases h (d.processInfo p) hm with ⟨hsub, -⟩ | heq
    · obtain ⟨info, heq, hs, hfuture, -⟩ := registerMask_sound (p := p) h hsub fun _ => hpid
      rw [heq]
      refine .inl ⟨rfl, hs, ?_⟩
      rw [set_same_slot, hfuture, hown, empty_union]
    · rw [heq]
      exact .inr ⟨by simp, set_self d p⟩

theorem preregister_sound (h : Sound S d) (hp : (d.processInfo p).pid = 0) (hpid : pid ≠ 0)
    (hm : if flags.stealCpus then ∀ cpu ∈ mask, cpu < S.size else Fits S mask) :
    Sound S (preregister S d pid mask flags p).1 := by
  have hslot : (d.set p { pid := pid, preregistered := true }).processInfo p = { pid := pid, preregistered := true } :=
    set_same_slot _ _ _
  have hs : Sound S (d.set p { pid := pid, preregistered := true }) := by
    refine h.set (ok_whole hpid rfl (disjoint_empty_left _) (empty_subset _) (empty_subset _)) ?_
    exact (h.vacant_holder hp).symm
  have hsame := takeMask_same S (d.set p { pid := pid, preregistered := true }) p mask flags
  have hpid' := (hsame.pid p).trans (congrArg Pinfo.pid hslot)
  unfold preregister
  dsimp only
  rcases takeMask_sound (p := p) hs (by rw [hslot]; exact hpid) (by rw [hslot]) (by rw [hslot]) hm with
    ⟨hok, hs1, hfuture⟩ | ⟨hfail, heq⟩
  · rw [if_neg (not_not.mpr hok)]
    generalize (takeMask S (d.set p { pid := pid, preregistered := true }) p mask flags).1 = d1 at hs1 hfuture hpid' ⊢
    have hp1 := hs1.slot p
    refine Sound.grow ?_ _
    refine hs1.set (ok_whole ?_ rfl ?_ hp1.lost ?_) ?_
    · rw [hpid']
      exact hpid
    · rw [← hfuture]
      exact hp1.stolen
    · exact hfuture ▸ hs1.future_subset p
    · rw [hs1.holder, hfuture]
      rfl
  · rw [if_pos hfail, heq, Shdata.modify, hslot, set_set]
    exact h.set ⟨fun _ => rfl, disjoint_empty_left _, empty_subset _, empty_subset _,
      fun _ => ⟨rfl, rfl, rfl⟩⟩ (h.vacant_holder hp).symm

theorem preinit_sound (h : Sound S d) (hm : if flags.stealCpus then ∀ cpu ∈ mask, cpu < S.size else Fits S mask) :
    Sound S (preinit S c d pid mask flags).1 := by
  unfold preinit
  split
  · exact h
  · rename_i p hscan
    obtain ⟨-, hp, -⟩ := Lib.scan_some hscan
    simp only [decide_eq_true_eq] at hp
    split
    · exact h
    · rename_i hne
      have hz := hp.resolve_left hne
      exact preregister_sound h hz (fun e => hne (by rw [hz, e])) hm

/-! ## The other calls -/

theorem findProcess_pid (h : findProcess c d pid = some p) : (d.processInfo p).pid = pid := by
  have hscan : Lib.scan d.numProcesses (fun p => (d.processInfo p).pid = pid) = some p →
      (d.processInfo p).pid = pid := fun hp => of_decide_eq_true (Lib.scan_some hp).2.1
  unfold findProcess at h
  split at h
  · split at h
    · rename_i hi
      cases h
      exact hi
    · exact hscan h
  · exact hscan h

theorem getProcess_registered (hpid : pid ≠ 0) (h : getProcess c d pid parents = some p) :
    (d.processInfo p).pid ≠ 0 := by
  induction parents generalizing pid with
  | nil =>
    rw [findProcess_pid h]
    exact hpid
  | cons parent rest ih =>
    rcases Option.or_eq_some_iff.mp h with h | ⟨-, h⟩
    · rw [findProcess_pid h]
      exact hpid
    · split at h
      · rename_i hpos
        exact ih (Nat.pos_iff_ne_zero.mp hpos) h
      · cases h

theorem finalize_sound (h : Sound S d) (returnStolen : Bool) : Sound S (finalize S c d pid parents returnStolen).1 := by
  unfold finalize
  split
  · exact h
  · rename_i p _
    rw [(h.slot p).effective]
    obtain ⟨hs, hfuture⟩ := unregisterMask_sound h (subset_refl (d.processInfo p).futureProcessMask) returnStolen
    refine hs.set (ok_empty S) ?_
    rw [hs.holder, hfuture, sdiff_self]
    rfl

theorem recoverStolenCpus_sound (h : Sound S d) : Sound S (recoverStolenCpus S c d pid parents).1 := by
  unfold recoverStolenCpus
  split
  · exact h
  · rename_i p _
    dsimp only
    split
    · exact h
    rename_i hne
    have hpid : (d.processInfo p).pid ≠ 0 := fun hz => hne ((h.slot p).vacant hz).2.2
    obtain ⟨info, heq, hs, -⟩ := registerMask_sound (p := p) h
      (inter_subset_right : (d.processInfo p).stolenCpus ∩ d.freeMask ⊆ d.freeMask) fun _ => hpid
    rw [heq]
    have hinfo : info.Ok S := by simpa using hs.slot p
    have hfit := fits_of_subset hinfo.lost
    rw [muSubtract_of_fits hfit hfit]
    have hok : Pinfo.Ok S { info with
        stolenCpus := info.stolenCpus \ ((d.processInfo p).stolenCpus ∩ d.freeMask) } := by
      refine ⟨hinfo.clean, ?_, hinfo.current, sdiff_subset.trans hinfo.lost, fun hz => ?_⟩
      · exact disjoint_of_subset_left sdiff_subset hinfo.stolen
      · obtain ⟨hd, hf, hst⟩ := hinfo.vacant hz
        exact ⟨hd, hf, by simp [hst]⟩
    have := hs.set (p := p) hok (by simp [Pinfo.effective])
    rwa [set_set] at this

theorem getprocessmask_sound (h : Sound S d) : Sound S (getprocessmask c d pid parents).1 := by
  unfold getprocessmask getprocessmaskSelf
  dsimp only
  repeat' split
  · exact h.resolve _
  all_goals exact h

theorem polldrom_sound (h : Sound S d) : Sound S (polldrom c d pid parents).1 := by
  unfold polldrom
  dsimp only
  repeat' split
  · exact h
  · exact h.resolve _
  · exact h

theorem setOwnMask_sound (h : Sound S d) (hpid : (d.processInfo p).pid ≠ 0)
    (hclean : (d.processInfo p).dirty = false) (mask : CpuSet) (returnStolen : Bool) :
    Sound S (setOwnMask S d p mask returnStolen).1 := by
  unfold setOwnMask
  split
  · rcases setNewMask_sound h hpid hclean mask returnStolen with ⟨-, hs, -⟩ | ⟨-, heq⟩
    · exact hs
    · rw [heq]
      exact h
  · exact h

theorem setprocessmaskSelf_sound (h : Sound S d) (hpid : (d.processInfo p).pid ≠ 0)
    (hh : (d.processInfo p).dirty = true → mask = (d.processInfo p).futureProcessMask →
      Harmless d p flags.returnStolen) : Sound S (setprocessmaskSelf S d p mask flags).1 := by
  cases hd : (d.processInfo p).dirty with
  | false =>
    have hs := setOwnMask_sound h hpid hd mask flags.returnStolen
    unfold setprocessmaskSelf
    dsimp only
    split
    · exact hs.resolve p
    · exact hs
  | true =>
    by_cases hm : mask = (d.processInfo p).futureProcessMask
    · subst hm
      exact (confirm_sound h hd hpid (hh hd rfl)).1
    · have heq : setOwnMask S d p mask flags.returnStolen = (d, { error := .errPdirty }) := by
        simp [setOwnMask, hd, hm]
      unfold setprocessmaskSelf
      rw [heq, if_neg (by simp)]
      exact h

theorem setprocessmask_sound (h : Sound S d)
    (hself : ∀ p, isSelf c d pid = some p → (d.processInfo p).pid ≠ 0 ∧
      ((d.processInfo p).dirty = true → mask = (d.processInfo p).futureProcessMask →
        Harmless d p flags.returnStolen)) :
    Sound S (setprocessmask S c d pid parents mask flags).1 := by
  unfold setprocessmask
  split
  · rename_i p hp
    exact setprocessmaskSelf_sound h (hself p hp).1 (hself p hp).2
  split
  · exact h
  rename_i hpid
  split
  · exact h
  rename_i p hp
  split
  · exact h
  rename_i hclean
  rcases setNewMask_sound h (getProcess_registered hpid hp) (by simpa using hclean) mask flags.returnStolen with
    ⟨-, hs, -⟩ | ⟨-, heq⟩
  · exact hs
  · rw [heq]
    exact h

/-! ## Runs -/

/-- The calls that keep the CPUs divided. Inits and preinits pass masks inside the system; an init that inherits does
not get back CPUs that were stolen from the preregistered process; a process sets its own mask while it is registered,
and confirms a pending mask only when that is harmless. -/
def Admitted (S : System) (c : Caller) (d : Shdata) : Call → Prop
  | .init pid preinitPid mask sharing => pid ≠ 0 ∧ sharing = false ∧ Fits S mask ∧
      (preinitPid ≠ 0 → ∀ q, (d.processInfo q).pid = preinitPid → NotRecovering d mask q)
  | .preinit _ mask flags => if flags.stealCpus then ∀ cpu ∈ mask, cpu < S.size else Fits S mask
  | .setprocessmask pid _ mask flags => ∀ p, isSelf c d pid = some p → (d.processInfo p).pid ≠ 0 ∧
      ((d.processInfo p).dirty = true → mask = (d.processInfo p).futureProcessMask →
        Harmless d p flags.returnStolen)
  | _ => True

theorem Inv.of_sound {d' : Shdata} (hb : Bounded d') (hs : Sound S d') (hinit : d'.initialized = true) : Inv S d' := by
  refine ⟨hb, fun h => ?_, fun _ => hs⟩
  rw [hinit] at h
  cases h

theorem Inv.same {d' : Shdata} (h : Inv S d) (hinit : d.initialized = true) (he : SameEntries d d') (hs : Sound S d') :
    Inv S d' := .of_sound (h.bounded.same he) hs (he.initialized.trans hinit)

theorem preinit_initialized (S : System) (c : Caller) (d : Shdata) (pid : Pid) (mask : CpuSet) (flags : DromFlags) :
    (preinit S c d pid mask flags).1.initialized = d.initialized := by
  unfold preinit preregister
  dsimp only
  repeat' split
  · rfl
  · rfl
  · exact (takeMask_same S _ _ mask flags).initialized
  · rw [grow_initialized]
    exact (takeMask_same S _ _ mask flags).initialized

theorem finalize_initialized (S : System) (c : Caller) (d : Shdata) (pid : Pid) (parents : List Pid)
    (returnStolen : Bool) : (finalize S c d pid parents returnStolen).1.initialized = d.initialized := by
  unfold finalize
  split
  · rfl
  · exact (unregisterMask_same S d _ _ returnStolen).initialized

theorem exec_inv {call : Call} (h : Inv S d) (hadm : Admitted S c d call) : Inv S (exec S c d call).1 := by
  have hb := exec_bounded S c call h.bounded
  cases call with
  | init pid preinitPid mask sharing =>
    obtain ⟨hpid, rfl, hfit, hrec⟩ := hadm
    rcases init_sound (c := c) h hpid hfit hrec with heq | ⟨hs, hinit⟩
    · simp only [exec, heq]
      exact h
    · exact .of_sound hb hs hinit
  | extInit =>
    simp only [exec, extInit] at hb ⊢
    split
    · rename_i hinit
      rw [h.zeroed (by simpa using hinit)] at hb ⊢
      exact .of_sound hb (sound_of_zeroed rfl (fun _ => rfl) rfl) rfl
    · exact h
  | preinit pid mask flags =>
    refine attached h fun hinit => .of_sound (preinit_cases S c pid mask flags h.bounded hinit).1
      (preinit_sound (h.sound hinit) hadm) ?_
    rw [preinit_initialized, hinit]
  | finalize pid parents returnStolen =>
    refine attached h fun hinit => .of_sound ((finalize_leaves S c d pid parents returnStolen hinit).bounded h.bounded)
      (finalize_sound (h.sound hinit) returnStolen) ?_
    rw [finalize_initialized, hinit]
  | recoverStolenCpus pid parents =>
    exact attached h fun hinit => h.same hinit (recoverStolenCpus_same S c d pid parents)
      (recoverStolenCpus_sound (h.sound hinit))
  | getprocessmask pid parents =>
    exact attached h fun hinit => h.same hinit (getprocessmask_same c d pid parents)
      (getprocessmask_sound (h.sound hinit))
  | setprocessmask pid parents mask flags =>
    exact attached h fun hinit => h.same hinit (setprocessmask_same S c d pid parents mask flags)
      (setprocessmask_sound (h.sound hinit) hadm)
  | polldrom pid parents =>
    exact attached h fun hinit => h.same hinit (polldrom_same c d pid parents) (polldrom_sound (h.sound hinit))
  | closeShmem =>
    refine attached h fun _ => ?_
    unfold closeShmem
    split
    · exact inv_zeroed S
    · exact h

theorem reachable_inv (h : Reachable S (Admitted S) d) : Inv S d := by
  refine Lib.Run.invariant h (inv_zeroed S) ?_
  rintro d d' hi ⟨c, call, hadm⟩
  exact exec_inv hi hadm

/-- **Ownership partition.** In every state that admitted calls reach, once the memory is set up, the masks that count of
the registered processes and the free CPUs divide the system, and a process that is not dirty has its pending mask. -/
theorem ownership_partition (h : Reachable S (Admitted S) d) (hinit : d.initialized = true) : Divided S d :=
  ((reachable_inv h).sound hinit).divided

/-- Process `2` steals a CPU of process `1`, and the CPUs stay divided. -/
theorem ownership_partition_steal :
    Divided threeCpus (replay threeCpus [(caller, .init 1 0 {0, 1} false), (caller, .init 2 0 {2} false),
      (caller, .setprocessmask 2 [] {1, 2} {})] {}) := by
  refine ownership_partition (replay_run fun d call hc => ?_) (by decide)
  simp only [List.mem_cons, List.not_mem_nil, or_false] at hc
  rcases hc with rfl | rfl | rfl
  · exact ⟨by decide, rfl, by unfold Fits; decide, fun h => absurd rfl h⟩
  · exact ⟨by decide, rfl, by unfold Fits; decide, fun h => absurd rfl h⟩
  · rintro p ⟨⟩

/-- The calls without CPU sharing, of processes that set their own mask while they are registered and not dirty. -/
def InScope (c : Caller) (d : Shdata) : Call → Prop
  | .init pid _ _ sharing => pid ≠ 0 ∧ sharing = false
  | .setprocessmask pid _ _ _ => ∀ p, isSelf c d pid = some p →
      (d.processInfo p).pid ≠ 0 ∧ (d.processInfo p).dirty = false
  | _ => True

/-- A CPU is stolen from the preregistered process `1` and becomes free. Process `3` inherits from `1` and gets the CPU
back, but it is still listed as stolen from it: when `3` leaves and returns its CPUs, it returns this one to itself. -/
theorem cpu_owned_by_nobody :
    ¬∀ d, Reachable threeCpus InScope d → d.initialized = true → Divided threeCpus d := by
  intro h
  have hrun : Reachable threeCpus InScope (replay threeCpus [(caller, .extInit), (caller, .preinit 1 {0, 1} {}),
      (caller, .init 2 0 {2} false), (caller, .setprocessmask 2 [] {1, 2} {}), (caller, .polldrom 1 []),
      (caller, .finalize 2 [] false), (caller, .init 3 1 {0, 1} false), (caller, .finalize 3 [] true)] {}) := by
    refine replay_run fun d call hc => ?_
    simp only [List.mem_cons, List.not_mem_nil, or_false] at hc
    rcases hc with rfl | rfl | rfl | rfl | rfl | rfl | rfl | rfl
    · exact trivial
    · exact trivial
    · exact ⟨by decide, rfl⟩
    · rintro p ⟨⟩
    · exact trivial
    · exact trivial
    · exact ⟨by decide, rfl⟩
    · exact trivial
  have hdiv := h _ hrun (by decide)
  rcases (hdiv.whole 1).mp (by decide) with hfree | ⟨i, hi, -⟩
  · exact absurd hfree (by decide)
  · have hlt := (reachable_bounded hrun).lt_num hi
    have hnum : i < 2 := lt_of_lt_of_eq hlt (by decide)
    obtain rfl | rfl : i = 0 ∨ i = 1 := by omega
    · exact hi (by decide)
    · exact hi (by decide)

/-- **Confirming a pending mask.** In every state that admitted calls reach, a dirty process that passes its pending mask
disturbs nobody exactly when that is harmless. -/
theorem confirm_undisturbed_iff (h : Reachable S (Admitted S) d) (hd : (d.processInfo p).dirty = true)
    (hm : mask = (d.processInfo p).futureProcessMask) (flags : DromFlags) :
    Undisturbed S d p mask flags.noSync (setprocessmaskSelf S d p mask flags) ↔ Harmless d p flags.returnStolen := by
  subst hm
  have hi := reachable_inv h
  have hinit : d.initialized = true := by
    by_contra hinit
    rw [hi.zeroed (by simpa using hinit)] at hd
    cases hd
  have hs := hi.sound hinit
  refine confirm_iff hs hd fun hz => ?_
  rw [((hs.slot p).vacant hz).1] at hd
  cases hd

/-- Process `2` steals CPU `1` of process `1` and leaves: process `1` may confirm that it has lost the CPU. -/
theorem confirm_undisturbed_iff_left :
    let d := replay threeCpus [(caller, .init 1 0 {0, 1} false), (caller, .init 2 0 {2} false),
      (caller, .setprocessmask 2 [] {1, 2} {}), (caller, .finalize 2 [] false)] {}
    Undisturbed threeCpus d 0 {0} false (setprocessmaskSelf threeCpus d 0 {0} {}) := by
  intro d
  have hrun : Reachable threeCpus (Admitted threeCpus) d := by
    refine replay_run fun d call hc => ?_
    simp only [List.mem_cons, List.not_mem_nil, or_false] at hc
    rcases hc with rfl | rfl | rfl | rfl
    · exact ⟨by decide, rfl, by unfold Fits; decide, fun h => absurd rfl h⟩
    · exact ⟨by decide, rfl, by unfold Fits; decide, fun h => absurd rfl h⟩
    · rintro p ⟨⟩
    · exact trivial
  refine (confirm_undisturbed_iff hrun (by decide) (by decide) {}).mpr fun _ cpu hc => ?_
  have hcpu : lostSince d 0 = {1} := by decide
  rw [mem_singleton.mp hc]
  exact .inl ⟨.inr rfl, by decide⟩

/-- Process `2` has stolen CPU `1` of process `1`, which confirms that it has lost the CPU: the CPU is free, and owned by
process `2`. -/
theorem confirm_frees_owned_cpu :
    ¬∀ d p mask flags, Reachable threeCpus InScope d → (d.processInfo p).dirty = true →
      mask = (d.processInfo p).futureProcessMask →
      Undisturbed threeCpus d p mask flags.noSync (setprocessmaskSelf threeCpus d p mask flags) := by
  intro h
  have hrun : Reachable threeCpus InScope (replay threeCpus [(caller, .init 1 0 {0, 1} false),
      (caller, .init 2 0 {2} false), (caller, .setprocessmask 2 [] {1, 2} {})] {}) := by
    refine replay_run fun d call hc => ?_
    simp only [List.mem_cons, List.not_mem_nil, or_false] at hc
    rcases hc with rfl | rfl | rfl
    · exact ⟨by decide, rfl⟩
    · exact ⟨by decide, rfl⟩
    · rintro p ⟨⟩
  have hfree := (h _ 0 {0} {} hrun (by decide) (by decide)).free 1 (by decide)
  have hnot := disjoint_left.mp hfree
  exact @hnot 1 (by decide) (by decide)

end Dlb.Procinfo

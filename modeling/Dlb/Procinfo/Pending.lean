import Dlb.Procinfo.AllOrNothing

/-!
# Changes that are pending

Until a process polls, what others do to its entry is pending: its current mask stays, the entry becomes dirty, and a
pending mask that exists already only grows (`Pinfo.Defers`). Setting the mask of a process is such a change for every
entry (`setNewMask_defers`), the leave of a process for every other entry (`unregisterMask_defers`).
-/

namespace Dlb.Procinfo

variable {S : System} {c : Caller} {d d1 : Shdata} {mask m : CpuSet} {p q : ℕ} {pid preinitPid : Pid}
  {parents : List Pid} {flags : DromFlags} {returnStolen sharing : Bool}

/-- A change of an entry that its process has yet to see. -/
structure Pinfo.Defers (a b : Pinfo) : Prop where
  pid : b.pid = a.pid
  current : b.currentProcessMask = a.currentProcessMask
  future : a.dirty = true → a.futureProcessMask ⊆ b.futureProcessMask
  dirty : b.dirty = false → a.dirty = false

theorem Pinfo.Defers.refl (a : Pinfo) : a.Defers a := ⟨rfl, rfl, fun _ => subset_rfl, id⟩

theorem Pinfo.Defers.trans {a b info : Pinfo} (h1 : a.Defers b) (h2 : b.Defers info) : a.Defers info where
  pid := h2.pid.trans h1.pid
  current := h2.current.trans h1.current
  future ha := (h1.future ha).trans <| h2.future <| by
    by_contra hb
    exact absurd (h1.dirty (by simpa using hb)) (by simp [ha])
  dirty hclean := h1.dirty (h2.dirty hclean)

theorem Pinfo.Defers.grow {a b : Pinfo} (hpid : b.pid = a.pid) (hcurrent : b.currentProcessMask = a.currentProcessMask)
    (hfuture : a.futureProcessMask ⊆ b.futureProcessMask) (hd : b.dirty = true) : a.Defers b :=
  ⟨hpid, hcurrent, fun _ => hfuture, fun hclean => by simp [hd] at hclean⟩

theorem defers_set {info : Pinfo} (h : (d.processInfo p).Defers info) (i : ℕ) :
    (d.processInfo i).Defers ((d.set p info).processInfo i) := by
  by_cases hi : i = p
  · subst hi
    rwa [set_same_slot]
  · rw [set_other_slot d info hi]
    exact .refl _

theorem giveBack_defers (d : Shdata) (cpu i : ℕ) : (d.processInfo i).Defers ((giveBack d cpu).processInfo i) := by
  unfold giveBack
  split
  · rename_i p _
    have hgrow : (d.processInfo p).Defers (givenBack (d.processInfo p) cpu) :=
      .grow rfl rfl (Finset.subset_insert _ _) rfl
    exact defers_set hgrow i
  · exact .refl _

/-! ## Leaving -/

theorem unregisterMask_defers (d : Shdata) (mask : CpuSet) (returnStolen : Bool) {i : ℕ} (hi : i ≠ p) :
    (d.processInfo i).Defers ((unregisterMask S d p mask returnStolen).processInfo i) := by
  unfold unregisterMask
  repeat' split
  · exact .refl _
  · exact .refl _
  · refine List.foldlRecOn (motive := fun r : Shdata => (d.processInfo i).Defers (r.processInfo i)) _ _ (.refl _)
      fun r hr cpu _ => hr.trans ?_
    rw [unregisterCpu, Shdata.modify, set_other_slot _ _ hi]
    exact giveBack_defers r cpu i
  · rw [Shdata.modify, set_other_slot _ _ hi]
    exact .refl _

theorem unregisterMask_current (d : Shdata) (p : ℕ) (mask : CpuSet) (returnStolen : Bool) :
    ((unregisterMask S d p mask returnStolen).processInfo p).currentProcessMask =
      (d.processInfo p).currentProcessMask := by
  unfold unregisterMask
  repeat' split
  · rfl
  · rfl
  · refine List.foldlRecOn (motive := fun r : Shdata => (r.processInfo p).currentProcessMask =
      (d.processInfo p).currentProcessMask) _ _ rfl fun r hr cpu _ => ?_
    rw [unregisterCpu, Shdata.modify, set_same_slot, ← hr]
    exact (giveBack_defers r cpu p).current
  · rw [Shdata.modify, set_same_slot]

/-! ## A new mask -/

theorem stealMask_defers (h : Sound S d) (hfit : Fits S m) (hdry : (stealMask S d p m true).2 = .success) (i : ℕ) :
    (d.processInfo i).Defers ((stealMask S d p m false).1.processInfo i) := by
  unfold stealMask at hdry ⊢
  split at hdry
  · rename_i hempty
    rw [if_pos hempty]
    exact .refl _
  rename_i hne
  rw [if_neg hne]
  have hloop := (stealLoop_dry S p m d d (List.range d.numProcesses) List.nodup_range m fun _ _ => rfl).2
  simp only [if_true, hloop] at hdry
  simp only [Bool.false_eq_true, if_false, hdry, if_true]
  obtain ⟨-, hslot, -⟩ := stealLoop_steals hfit (List.range d.numProcesses) List.nodup_range subset_rfl
    (stealError_success hdry).1
  generalize (stealLoop S p m false (List.range d.numProcesses) d m).1 = d1 at hslot ⊢
  have hsteal : (d.processInfo i).Defers (d1.processInfo i) := by
    rcases hslot i with heq | ⟨-, hq⟩
    · rw [heq]
      exact .refl _
    · rw [hq.info, robbed_of_ok (h.slot i) hq.clean]
      exact ⟨rfl, rfl, fun hd => by simp [hq.clean] at hd, nofun⟩
  have hgrow : (d1.processInfo p).Defers (granted S (d1.processInfo p) m) :=
    .grow rfl rfl Finset.subset_union_left rfl
  exact hsteal.trans (defers_set hgrow i)

theorem setNewMask_defers (h : Sound S d) (hpid : (d.processInfo p).pid ≠ 0) (hclean : (d.processInfo p).dirty = false)
    (mask : CpuSet) (returnStolen : Bool) (i : ℕ) :
    (d.processInfo i).Defers ((setNewMask S d p mask returnStolen).1.processInfo i) := by
  have hfit : Fits S (cpusToSteal S d (d.processInfo p) mask) := fits_of_lt_size fun cpu hc =>
    Finset.mem_range.mp (Finset.mem_filter.mp hc).1
  unfold setNewMask
  rw [if_neg (by simp [h.sharing])]
  dsimp only
  rw [stealMask_dry]
  split
  · exact .refl _
  rename_i hdry
  obtain ⟨hok, hs, hfree, -, hpid', -⟩ := stealMask_sound h hfit hpid (not_not.mp hdry)
  have hsteal := stealMask_defers h hfit (not_not.mp hdry)
  rw [if_neg (not_not.mpr hok)]
  generalize (stealMask S d p (cpusToSteal S d (d.processInfo p) mask) false).1 = d1 at hs hfree hpid' hsteal ⊢
  have hacquire : cpusToAcquire S d mask ⊆ d1.freeMask := by
    rw [hfree]
    exact fun cpu hc => (Finset.mem_filter.mp hc).2.2
  obtain ⟨info, heq, -, -, hpid2, hcurrent₂⟩ := registerMask_sound (p := p) hs hacquire fun _ => hpid' ▸ hpid
  rw [heq]
  rw [if_neg (by simp)]
  generalize hd2 : { d1 with freeMask := d1.freeMask \ cpusToAcquire S d mask }.set p info = d2
  by_cases hi : i = p
  · subst hi
    -- the process was not dirty: only its current mask matters
    refine ⟨?_, ?_, fun hd => by simp [hclean] at hd, fun _ => hclean⟩
    · rw [(unregisterMask_same S d2 i _ returnStolen).pid i, ← hd2, set_same_slot, hpid2]
      exact (hsteal i).pid
    · rw [unregisterMask_current, ← hd2, set_same_slot, hcurrent₂]
      exact (hsteal i).current
  · refine (hsteal i).trans (.trans ?_ (unregisterMask_defers d2 _ returnStolen hi))
    rw [← hd2, set_other_slot _ _ hi]
    exact .refl _

theorem setNewMask_pending_defers (h : Sound S d) (hd : (d.processInfo p).dirty = true) (returnStolen : Bool) (i : ℕ) :
    (d.processInfo i).Defers
      ((setNewMask S d p (d.processInfo p).futureProcessMask returnStolen).1.processInfo i) := by
  by_cases hsub : (d.processInfo p).futureProcessMask ⊆ (d.processInfo p).currentProcessMask
  · rw [setNewMask_pending h returnStolen hsub]
    by_cases hi : i = p
    · subst hi
      cases returnStolen with
      | false =>
        rw [unregister_lost h hd]
        exact .refl _
      | true =>
        obtain ⟨cpus, -, hreturned⟩ := unregister_returned h hd
        obtain ⟨stolen, -, hown⟩ := hreturned.own
        rw [hown]
        exact ⟨rfl, rfl, fun _ => subset_rfl, id⟩
    · exact unregisterMask_defers d _ returnStolen hi
  · rw [setNewMask_pending_error h returnStolen hsub]
    exact .refl _

/-! ## A mask of one's own -/

theorem setOwnMask_defers (h : Sound S d) (hpid : (d.processInfo p).pid ≠ 0) (mask : CpuSet) (returnStolen : Bool)
    (i : ℕ) : (d.processInfo i).Defers ((setOwnMask S d p mask returnStolen).1.processInfo i) := by
  unfold setOwnMask
  split
  · rename_i hmask
    cases hd : (d.processInfo p).dirty with
    | false => exact setNewMask_defers h hpid hd mask returnStolen i
    | true =>
      rw [hmask.resolve_left (by simp [hd])]
      exact setNewMask_pending_defers h hd returnStolen i
  · exact .refl _

theorem setOwnMask_future (h : Sound S d) (hpid : (d.processInfo p).pid ≠ 0)
    (hok : (setOwnMask S d p mask returnStolen).2.error = .success) :
    ((setOwnMask S d p mask returnStolen).1.processInfo p).futureProcessMask = {cpu ∈ mask | cpu < S.size} := by
  unfold setOwnMask at hok ⊢
  split at hok
  · rename_i hmask
    rw [if_pos hmask]
    cases hd : (d.processInfo p).dirty with
    | false =>
      rcases setNewMask_sound h hpid hd mask returnStolen with ⟨-, -, hfuture⟩ | ⟨hfail, -⟩
      · exact hfuture
      · exact absurd hok hfail
    | true =>
      obtain rfl := hmask.resolve_left (by simp [hd])
      have hall : {cpu ∈ (d.processInfo p).futureProcessMask | cpu < S.size} = (d.processInfo p).futureProcessMask :=
        Finset.filter_true_of_mem fun cpu hc => S.lt_size (h.future_subset p hc)
      by_cases hsub : (d.processInfo p).futureProcessMask ⊆ (d.processInfo p).currentProcessMask
      · rw [setNewMask_pending h returnStolen hsub, hall]
        cases returnStolen with
        | false => rw [unregister_lost h hd]
        | true =>
          obtain ⟨cpus, -, hreturned⟩ := unregister_returned h hd
          obtain ⟨stolen, -, hown⟩ := hreturned.own
          rw [hown]
      · rw [setNewMask_pending_error h returnStolen hsub] at hok
        cases hok
  · cases hok

/-- What changes is pending for every registered process. -/
def Defers (d d1 : Shdata) : Prop :=
  ∀ i, (d.processInfo i).Defers (d1.processInfo i) ∨ (d.processInfo i).pid = 0 ∧ (d1.processInfo i).pid = 0

theorem setprocessmask_defers (h : Sound S d) (hself : ∀ p, isSelf c d pid = some p → (d.processInfo p).pid ≠ 0)
    (hlate : (isSelf c d pid).isSome = true → flags.noSync = false →
      (setprocessmask S c d pid parents mask flags).2.error ≠ .success) :
    Defers d (setprocessmask S c d pid parents mask flags).1 := by
  intro i
  left
  unfold setprocessmask at hlate ⊢
  cases hs : isSelf c d pid with
  | some p =>
    rw [hs] at hlate
    have hown := setOwnMask_defers h (hself p hs) mask flags.returnStolen i
    unfold setprocessmaskSelf at hlate ⊢
    dsimp only at hlate ⊢
    split
    · rename_i hsync
      rw [if_pos hsync] at hlate
      exact absurd hsync.1 (hlate rfl (by simpa using hsync.2))
    · exact hown
  | none =>
    dsimp only
    split
    · exact .refl _
    · rename_i hpid
      split
      · exact .refl _
      · rename_i p hp
        split
        · exact .refl _
        · rename_i hclean
          exact setNewMask_defers h (getProcess_registered hpid hp) (by simpa using hclean) mask flags.returnStolen i

/-- The process in slot `p` has taken the CPUs of `m`; what the others lose is pending. -/
structure Takes (d d1 : Shdata) (p : ℕ) (m : CpuSet) : Prop where
  pid : (d1.processInfo p).pid = (d.processInfo p).pid
  clean : (d1.processInfo p).dirty = false
  cpus : (d1.processInfo p).currentProcessMask = m
  others : ∀ i, i ≠ p → (d.processInfo i).Defers (d1.processInfo i)

theorem takes_resolve (hpid : (d1.processInfo p).pid = (d.processInfo p).pid)
    (hothers : ∀ i, i ≠ p → (d.processInfo i).Defers (d1.processInfo i)) :
    Takes d (d1.modify p resolve) p (d1.processInfo p).futureProcessMask := by
  rw [Shdata.modify]
  refine ⟨?_, ?_, ?_, fun i hi => ?_⟩
  · rw [set_same_slot]
    exact hpid
  · rw [set_same_slot]
    rfl
  · rw [set_same_slot]
    rfl
  · rw [set_other_slot _ _ hi]
    exact hothers i hi

theorem setprocessmask_takes (h : Sound S d) (hself : isSelf c d pid = some p) (hpid : (d.processInfo p).pid ≠ 0)
    (hok : (setprocessmask S c d pid parents mask flags).2.error = .success) (hsync : flags.noSync = false) :
    Takes d (setprocessmask S c d pid parents mask flags).1 p {cpu ∈ mask | cpu < S.size} := by
  have hdefers := setOwnMask_defers h hpid mask flags.returnStolen
  unfold setprocessmask at hok ⊢
  rw [hself] at hok ⊢
  dsimp only at hok ⊢
  have hown : (setOwnMask S d p mask flags.returnStolen).2.error = .success := by
    unfold setprocessmaskSelf at hok
    dsimp only at hok
    split at hok
    · exact hok
    · exact hok
  have heq : setprocessmaskSelf S d p mask flags = ((setOwnMask S d p mask flags.returnStolen).1.modify p resolve,
      (setOwnMask S d p mask flags.returnStolen).2) := if_pos ⟨hown, by simp [hsync]⟩
  rw [heq, ← setOwnMask_future h hpid hown]
  exact takes_resolve (hdefers p).pid fun i _ => hdefers i

theorem polldrom_takes (hown : getProcess c d pid parents = some p)
    (hok : (polldrom c d pid parents).2.error = .success) :
    Takes d (polldrom c d pid parents).1 p (d.processInfo p).futureProcessMask ∧
      (polldrom c d pid parents).2.mask = some (d.processInfo p).futureProcessMask := by
  unfold polldrom at hok ⊢
  rw [hown] at hok ⊢
  dsimp only at hok ⊢
  split at hok
  · rename_i hd
    rw [if_pos hd]
    exact ⟨takes_resolve rfl fun _ _ => .refl _, rfl⟩
  · cases hok

/-! ## Registrations that fail -/

theorem inheritProcess_failed {spot : Option ℕ} (h : (inheritProcess S d pid mask q spot).2.2 ≠ .noted) :
    (inheritProcess S d pid mask q spot).1.processInfo = d.processInfo := by
  unfold inheritProcess at h ⊢
  dsimp only at h ⊢
  repeat' split
  all_goals simp_all

theorem newProcess_failed (h : (newProcess S d pid mask p).2 ≠ .success) :
    (newProcess S d pid mask p).1.processInfo = Function.update d.processInfo p {} := by
  have hreg : (registerMask S d { pid := pid } mask).2.2 ≠ .success →
      registerMask S d { pid := pid } mask = (d, { pid := pid }, .errPerm) := by
    unfold registerMask
    repeat' split
    all_goals simp
  unfold newProcess at h ⊢
  dsimp only at h ⊢
  split
  · rename_i hok
    rw [if_pos hok] at h
    exact absurd hok h
  · rename_i hfail
    rw [hreg hfail]
    rfl

theorem init_failed (hb : Bounded d) (hs : (init S c d pid preinitPid mask sharing).2.error ≠ .success)
    (hn : (init S c d pid preinitPid mask sharing).2.error ≠ .noted) (i : ℕ) :
    (init S c d pid preinitPid mask sharing).1.processInfo i = d.processInfo i ∨
      (d.processInfo i).pid = 0 ∧ (init S c d pid preinitPid mask sharing).1.processInfo i = {} := by
  unfold init at hs hn ⊢
  cases hopen : openShmem S c d sharing with
  | error error => exact .inl rfl
  | ok d1 =>
    have ho := openShmem_opened hopen
    rw [hopen] at hs hn
    dsimp only at hs hn ⊢
    cases hfind : findSlots d1 pid preinitPid (List.range d1.numProcesses) (none, none) with
    | error error => exact .inl (by rw [ho.table])
    | ok found =>
      obtain ⟨f, pre⟩ := found
      have hf := findSlots_found hfind
      rw [hfind] at hs hn
      dsimp only at hs hn ⊢
      rcases hspot : emptySpot c d1 f with ⟨spot, isLast⟩
      rw [hspot] at hs hn
      cases pre with
      | none =>
        cases spot with
        | none => exact .inl (by rw [ho.table])
        | some p =>
          have hz := (emptySpot_some (ho.bounded hb) hf.empty hspot).1
          rw [ho.table] at hz
          rw [grow_table, newProcess_failed hs, ho.table]
          by_cases hi : i = p
          · rw [hi, Function.update_self]
            exact .inr ⟨hz, rfl⟩
          · exact .inl (Function.update_of_ne hi _ _)
      | some q =>
        left
        rw [grow_table, inheritProcess_failed hn, ho.table]

theorem init_failed_defers (hb : Bounded d) (hs : (init S c d pid preinitPid mask sharing).2.error ≠ .success)
    (hn : (init S c d pid preinitPid mask sharing).2.error ≠ .noted) :
    Defers d (init S c d pid preinitPid mask sharing).1 := by
  intro i
  rcases init_failed hb hs hn i with heq | ⟨hz, heq⟩
  · rw [heq]
    exact .inl (.refl _)
  · rw [heq]
    exact .inr ⟨hz, rfl⟩

theorem Sound.reserve (h : Sound S d) (hp : (d.processInfo p).pid = 0) (hpid : pid ≠ 0) :
    Sound S (d.set p { pid := pid, preregistered := true }) := by
  refine h.set (ok_whole hpid rfl (Finset.disjoint_empty_left _) (Finset.empty_subset _) (Finset.empty_subset _)) ?_
  exact (h.vacant_holder hp).symm

theorem takeMask_defers (h : Sound S d) (hpid : (d.processInfo p).pid ≠ 0) (hclean : (d.processInfo p).dirty = false)
    (mask : CpuSet) (flags : DromFlags) {i : ℕ} (hi : i ≠ p) :
    (d.processInfo i).Defers ((takeMask S d p mask flags).1.processInfo i) := by
  unfold takeMask
  split
  · exact setNewMask_defers h hpid hclean mask flags.returnStolen i
  · dsimp only
    rw [set_other_slot _ _ hi, registerMask_table]
    exact .refl _

theorem preinit_failed (h : Sound S d) (hm : if flags.stealCpus then ∀ cpu ∈ mask, cpu < S.size else Fits S mask)
    (hs : (preinit S c d pid mask flags).2.error ≠ .success) : Defers d (preinit S c d pid mask flags).1 := by
  unfold preinit at hs ⊢
  split
  · exact fun i => .inl (.refl _)
  · rename_i p hscan
    rw [hscan] at hs
    obtain ⟨-, hp, -⟩ := Lib.scan_some hscan
    simp only [decide_eq_true_eq] at hp
    dsimp only at hs ⊢
    split
    · exact fun i => .inl (.refl _)
    · rename_i hne
      rw [if_neg hne] at hs
      have hz := hp.resolve_left hne
      have hpid : pid ≠ 0 := fun e => hne (by rw [hz, e])
      have htake := takeMask_sound (p := p) (h.reserve hz hpid) (by rwa [set_same_slot]) (by rw [set_same_slot])
        (by rw [set_same_slot]) hm
      unfold preregister at hs ⊢
      dsimp only at hs ⊢
      rcases htake with ⟨hok, -, -⟩ | ⟨hfail, heq⟩
      · rw [if_neg (not_not.mpr hok)] at hs
        exact absurd rfl hs
      · rw [if_pos hfail, heq, Shdata.modify, set_set]
        intro i
        by_cases hi : i = p
        · subst hi
          rw [set_same_slot]
          exact .inr ⟨hz, rfl⟩
        · rw [set_other_slot _ _ hi]
          exact .inl (.refl _)

/-! ## Registrations that succeed -/

theorem Inv.ok (h : Inv S d) (i : ℕ) : (d.processInfo i).Ok S := by
  cases hinit : d.initialized with
  | true => exact (h.sound hinit).slot i
  | false =>
    rw [h.zeroed hinit]
    exact ok_empty S

/-- Another process keeps its CPUs, or gives away some of `mask`. -/
structure Pinfo.Yields (mask : CpuSet) (a b : Pinfo) : Prop where
  pid : b.pid = a.pid
  kept : a.currentProcessMask \ mask ⊆ b.currentProcessMask
  current : b.currentProcessMask ⊆ a.currentProcessMask
  future : a.dirty = true → a.futureProcessMask \ mask ⊆ b.futureProcessMask
  dirty : b.dirty = false → a.dirty = false

theorem Pinfo.Defers.yields {a b : Pinfo} (h : a.Defers b) (mask : CpuSet) : a.Yields mask b where
  pid := h.pid
  kept := by
    rw [h.current]
    exact Finset.sdiff_subset
  current := h.current.subset
  future hd := Finset.sdiff_subset.trans (h.future hd)
  dirty := h.dirty

theorem Pinfo.yields_sdiff (info : Pinfo) (mask : CpuSet) : info.Yields mask { info with
    currentProcessMask := info.currentProcessMask \ mask
    futureProcessMask := info.futureProcessMask \ mask } :=
  ⟨rfl, subset_rfl, Finset.sdiff_subset, fun _ => subset_rfl, id⟩

/-- Slot `p` holds process `pid` with the CPUs of `m`. It was empty, or it was the one of the preregistered process, with
some of these CPUs. -/
structure Registers (d d1 : Shdata) (p : ℕ) (pid preinitPid : Pid) (m : CpuSet) : Prop where
  slot : (d1.processInfo p).pid = pid
  cpus : (d1.processInfo p).effective = m
  was : (d.processInfo p).pid = 0 ∨ (d.processInfo p).pid = preinitPid ∧ (d.processInfo p).effective ⊆ m ∧
    ((d.processInfo p).dirty = true → (d1.processInfo p).currentProcessMask = (d.processInfo p).currentProcessMask)
  others : ∀ i, i ≠ p → (d.processInfo i).Yields m (d1.processInfo i)

theorem Registers.of_table {d2 d3 : Shdata} (h : Registers d d1 p pid preinitPid m)
    (h2 : d2.processInfo = d.processInfo) (h3 : d3.processInfo = d1.processInfo) :
    Registers d2 d3 p pid preinitPid m where
  slot := by rw [h3, h.slot]
  cpus := by rw [h3, h.cpus]
  was := by
    rw [h2, h3]
    exact h.was
  others i hi := by
    rw [h2, h3]
    exact h.others i hi

theorem registers_set {info : Pinfo} (hpid : info.pid = pid) (hcpus : info.effective = m)
    (hwas : (d.processInfo p).pid = 0 ∨ (d.processInfo p).pid = preinitPid ∧ (d.processInfo p).effective ⊆ m ∧
      ((d.processInfo p).dirty = true → info.currentProcessMask = (d.processInfo p).currentProcessMask)) :
    Registers d (d.set p info) p pid preinitPid m where
  slot := by rw [set_same_slot, hpid]
  cpus := by rw [set_same_slot, hcpus]
  was := by
    rw [set_same_slot]
    exact hwas
  others i hi := by
    rw [set_other_slot d info hi]
    exact (Pinfo.Defers.refl _).yields m

theorem registers_split {info : Pinfo} (hp : (d.processInfo p).pid = 0) (hqp : q ≠ p) (hpid : info.pid = pid)
    (hcpus : info.effective = m) :
    Registers d ((d.set p info).set q { d.processInfo q with
      currentProcessMask := (d.processInfo q).currentProcessMask \ m
      futureProcessMask := (d.processInfo q).futureProcessMask \ m }) p pid preinitPid m where
  slot := by rw [set_other_slot _ _ hqp.symm, set_same_slot, hpid]
  cpus := by rw [set_other_slot _ _ hqp.symm, set_same_slot, hcpus]
  was := .inl hp
  others i hi := by
    by_cases hiq : i = q
    · subst hiq
      rw [set_same_slot]
      exact Pinfo.yields_sdiff _ m
    · rw [set_other_slot _ _ hiq, set_other_slot _ _ hi]
      exact (Pinfo.Defers.refl _).yields m

theorem effective_same {info : Pinfo} (hc : info.currentProcessMask = m) (hf : info.futureProcessMask = m) :
    info.effective = m := by
  simp [Pinfo.effective, hc, hf]

theorem newProcess_error (S : System) (d : Shdata) (pid : Pid) (mask : CpuSet) (p : ℕ) :
    (newProcess S d pid mask p).2 = .success ∨ (newProcess S d pid mask p).2 = .errPerm := by
  have h := registerMask_error S d { pid := pid } mask
  unfold newProcess
  dsimp only
  split
  · exact h
  · exact h

theorem newProcess_registers (hp : (d.processInfo p).pid = 0) (hok : (newProcess S d pid mask p).2 = .success) :
    Registers d (newProcess S d pid mask p).1 p pid preinitPid mask := by
  have htable := registerMask_table S d { pid := pid } mask
  have hpid := registerMask_pid S d { pid := pid } mask
  unfold newProcess at hok ⊢
  dsimp only at hok ⊢
  split at hok
  · rename_i hreg
    rw [if_pos hreg]
    refine Registers.of_table (registers_set (p := p) ?_ ?_ (.inl ?_)) htable.symm rfl
    · exact hpid
    · exact effective_same rfl rfl
    · rw [htable, hp]
  · rename_i hreg
    exact absurd hok hreg

theorem inheritProcess_registers {spot : Option ℕ} (h : Sound S d) (hq : (d.processInfo q).pid = preinitPid)
    (hpre : preinitPid ≠ 0) (hspot : ∀ p, spot = some p → (d.processInfo p).pid = 0) (hfit : Fits S mask)
    (hok : (inheritProcess S d pid mask q spot).2.2 = .noted) :
    ∃ p m, (inheritProcess S d pid mask q spot).2.1 = some p ∧
      Registers d (inheritProcess S d pid mask q spot).1 p pid preinitPid m ∧
      (m = mask ∨ mask = ∅ ∧ m = (d.processInfo q).effective) := by
  have hfits : Fits S (d.processInfo q).effective := fits_of_subset (h.part.subset (some q))
  have hsubtract : ∀ m, muSubtract S (d.processInfo q).currentProcessMask (d.processInfo q).currentProcessMask m =
        (d.processInfo q).currentProcessMask \ m ∧
      muSubtract S (d.processInfo q).futureProcessMask (d.processInfo q).futureProcessMask m =
        (d.processInfo q).futureProcessMask \ m := by
    intro m
    have h1 := fits_of_subset (h.slot q).current
    have h2 := fits_of_subset (h.future_subset q)
    exact ⟨muSubtract_of_fits h1 h1, muSubtract_of_fits h2 h2⟩
  have hne : ∀ p, spot = some p → q ≠ p := by
    rintro p hp rfl
    exact hpre (hq ▸ hspot _ hp)
  have htable := registerMask_table S d {} (muSubtract S ∅ mask (d.processInfo q).effective)
  unfold inheritProcess at hok ⊢
  dsimp only at hok ⊢
  split at hok
  · -- A: the entry stays
    rename_i hA
    rw [if_pos hA]
    refine ⟨q, _, rfl, registers_set rfl rfl (.inr ⟨hq, subset_rfl, fun _ => rfl⟩), ?_⟩
    rcases hA with hA | hA
    · exact .inr ⟨hA, rfl⟩
    · exact .inl hA.symm
  rename_i hA
  rw [if_neg hA]
  split at hok
  · -- B: the entry gets CPUs
    rename_i hB
    rw [if_pos hB]
    split at hok
    · cases hok
    rename_i hclean
    rw [if_neg hclean]
    split at hok
    · rename_i hreg
      rw [if_pos hreg]
      simp only [muIsProperSuperset, muIsSubset, Bool.and_eq_true, decide_eq_true_eq] at hB
      rw [Finset.filter_true_of_mem hfits] at hB
      refine ⟨q, mask, rfl, ?_, .inl rfl⟩
      refine Registers.of_table (registers_set (p := q) ?_ ?_ (.inr ⟨?_, ?_, ?_⟩)) htable.symm rfl
      · rfl
      · exact effective_same rfl rfl
      · rw [htable, hq]
      · rw [htable]
        exact hB.1
      · rw [htable]
        exact fun hd => absurd hd hclean
    · cases hok
  rename_i hB
  rw [if_neg hB]
  split at hok
  · -- C: a new slot, with CPUs of the entry
    rename_i hC
    rw [if_pos hC]
    split at hok
    · cases hok
    rename_i hclean
    rw [if_neg hclean]
    cases spot with
    | none => cases hok
    | some p =>
      have hqp := hne p rfl
      have hsub : (d.processInfo q).effective ∩ mask = mask := by
        simp only [muIsProperSubset, muIsSubset, Bool.and_eq_true, decide_eq_true_eq] at hC
        rw [Finset.filter_true_of_mem hfit] at hC
        exact Finset.inter_eq_right.mpr hC.1
      refine ⟨p, mask, rfl, ?_, .inl rfl⟩
      simp only [Shdata.modify, set_other_slot _ _ hqp, (hsubtract _).1, (hsubtract _).2, hsub]
      exact registers_split (hspot p rfl) hqp rfl (effective_same rfl rfl)
  · -- D: a new slot, with CPUs of the entry and others
    rename_i hC
    rw [if_neg hC]
    split at hok
    · cases hok
    rename_i hclean
    rw [if_neg hclean]
    cases spot with
    | none => cases hok
    | some p =>
      have hqp := hne p rfl
      dsimp only at hok ⊢
      split at hok
      · rename_i hreg
        rw [if_pos hreg]
        refine ⟨p, mask, rfl, ?_, .inl rfl⟩
        generalize (registerMask S d {} (muSubtract S ∅ mask (d.processInfo q).effective)).1 = d1 at htable ⊢
        simp only [Shdata.modify, set_other_slot _ _ hqp, htable, (hsubtract _).1, (hsubtract _).2]
        rw [← htable]
        have hp : (d1.processInfo p).pid = 0 := by rw [htable, hspot p rfl]
        exact (registers_split hp hqp rfl (effective_same rfl rfl)).of_table htable.symm rfl
      · cases hok

theorem inheritProcess_ne_success (S : System) (d : Shdata) (pid : Pid) (mask : CpuSet) (q : ℕ) (spot : Option ℕ) :
    (inheritProcess S d pid mask q spot).2.2 ≠ .success := by
  unfold inheritProcess
  dsimp only
  repeat' split
  all_goals simp

theorem init_registers (h : Inv S d) (hfit : Fits S mask)
    (hok : (init S c d pid preinitPid mask false).2.error = .success ∨
      (init S c d pid preinitPid mask false).2.error = .noted) :
    ∃ p m, Registers d (init S c d pid preinitPid mask false).1 p pid preinitPid m ∧
      ((init S c d pid preinitPid mask false).2.error = .success → m = mask) ∧
      ((init S c d pid preinitPid mask false).2.error = .noted →
        (init S c d pid preinitPid mask false).2.mask = some m) ∧
      (m = mask ∨ mask = ∅ ∧ preinitPid ≠ 0 ∧ ∃ q, (d.processInfo q).pid = preinitPid ∧
        m = (d.processInfo q).effective) := by
  unfold init at hok ⊢
  cases hopen : openShmem S c d false with
  | error error =>
    rw [hopen] at hok
    unfold openShmem at hopen
    repeat' split at hopen
    all_goals cases hopen
    all_goals simp at hok
  | ok d1 =>
    have ho := openShmem_opened hopen
    have hs := h.opened ho
    have hb := ho.bounded h.bounded
    rw [hopen] at hok
    dsimp only at hok ⊢
    cases hfind : findSlots d1 pid preinitPid (List.range d1.numProcesses) (none, none) with
    | error error =>
      rw [hfind, findSlots_error _ hfind] at hok
      simp at hok
    | ok found =>
      obtain ⟨f, pre⟩ := found
      have hf := findSlots_found hfind
      rw [hfind] at hok
      dsimp only at hok ⊢
      rcases hspot : emptySpot c d1 f with ⟨spot, isLast⟩
      rw [hspot] at hok
      have hempty : ∀ p, spot = some p → (d1.processInfo p).pid = 0 := by
        rintro p rfl
        exact (emptySpot_some hb hf.empty hspot).1
      cases pre with
      | none =>
        cases spot with
        | none => simp at hok
        | some p =>
          dsimp only at hok ⊢
          have hsuccess : (newProcess S d1 pid mask p).2 = .success := by
            rcases hok with hok | hok
            · exact hok
            · rcases newProcess_error S d1 pid mask p with he | he
              · exact he
              · rw [he] at hok
                cases hok
          refine ⟨p, mask, (newProcess_registers (hempty p rfl) hsuccess).of_table ho.table.symm (grow_table _ _),
            fun _ => rfl, fun hn => ?_, .inl rfl⟩
          rw [hsuccess] at hn
          cases hn
      | some q =>
        obtain ⟨-, h0, hq, -⟩ := hf.preinit q rfl
        have hnoted := hok.resolve_left (inheritProcess_ne_success S d1 pid mask q spot)
        dsimp only at hnoted ⊢
        obtain ⟨p, m, hp, hreg, hm⟩ := inheritProcess_registers hs hq h0 hempty hfit hnoted
        refine ⟨p, m, hreg.of_table ho.table.symm (grow_table _ _), fun hn => ?_, fun _ => ?_, ?_⟩
        · exact absurd hn (inheritProcess_ne_success S d1 pid mask q spot)
        · rw [if_pos hnoted, hp, Option.map_some, hreg.cpus]
        · rw [ho.table] at hq hm
          exact hm.imp_right fun hm => ⟨hm.1, h0, q, hq, hm.2⟩

theorem preinit_registers (h : Sound S d) (hok : (preinit S c d pid mask flags).2.error = .success) :
    ∃ p, Registers d (preinit S c d pid mask flags).1 p pid 0 mask := by
  unfold preinit at hok ⊢
  split
  · rename_i hscan
    rw [hscan] at hok
    cases hok
  · rename_i p hscan
    rw [hscan] at hok
    obtain ⟨-, hp, -⟩ := Lib.scan_some hscan
    simp only [decide_eq_true_eq] at hp
    dsimp only at hok ⊢
    split
    · rename_i hself
      rw [if_pos hself] at hok
      cases hok
    · rename_i hne
      rw [if_neg hne] at hok
      have hz := hp.resolve_left hne
      have hpid : pid ≠ 0 := fun e => hne (by rw [hz, e])
      have hdefers := fun i hi => takeMask_defers (p := p) (i := i) (h.reserve hz hpid) (by rwa [set_same_slot])
        (by rw [set_same_slot]) mask flags hi
      have hsame := takeMask_same S (d.set p { pid := pid, preregistered := true }) p mask flags
      refine ⟨p, ?_⟩
      unfold preregister at hok ⊢
      dsimp only at hok ⊢
      split
      · rename_i hfail
        rw [if_pos hfail] at hok
        exact absurd hok hfail
      · generalize (takeMask S (d.set p { pid := pid, preregistered := true }) p mask flags).1 = d1 at hdefers hsame ⊢
        refine Registers.of_table (d := d) ?_ rfl (grow_table _ _)
        rw [Shdata.modify]
        refine ⟨?_, ?_, .inl hz, fun i hi => ?_⟩
        · rw [set_same_slot]
          exact (hsame.pid p).trans (by rw [set_same_slot])
        · rw [set_same_slot]
          exact effective_same rfl rfl
        · have := hdefers i hi
          rw [set_other_slot _ _ hi] at this ⊢
          exact this.yields mask

theorem getProcess_own (hown : c.myPinfo = some p) (hp : (d.processInfo p).pid = pid) (parents : List Pid) :
    getProcess c d pid parents = some p := by
  have hfind : findProcess c d pid = some p := by
    unfold findProcess
    rw [hown]
    dsimp only
    rw [if_pos hp]
  cases parents with
  | nil => exact hfind
  | cons parent rest =>
    rw [getProcess, hfind]
    rfl

end Dlb.Procinfo

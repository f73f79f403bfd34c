import Dlb.Procinfo.Ownership

/-!
# A new mask is set as a whole or not at all

`set_new_mask` steals, registers and unregisters CPUs. An error is found by the dry run of the steal, before anything
is written; the classes of CPUs are apart, so each CPU is moved once (`SameAt` says of a CPU that it is not). In the
states that admitted calls reach, a CPU that the process gains was free or comes from one process that loses it, and one
that it drops becomes free or goes back to one process that had lost it (`set_new_mask_all_or_nothing`).
-/

namespace Dlb.Procinfo

open List

variable {S : System} {c : Caller} {d d1 d2 d3 : Shdata} {info : Pinfo} {mask m left : CpuSet} {p q cpu : ℕ}

/-! ## One CPU -/

structure SameAt (cpu : ℕ) (d d1 : Shdata) : Prop where
  free : cpu ∈ d1.freeMask ↔ cpu ∈ d.freeMask
  pid : ∀ q, (d1.processInfo q).pid = (d.processInfo q).pid
  future : ∀ q, cpu ∈ (d1.processInfo q).futureProcessMask ↔ cpu ∈ (d.processInfo q).futureProcessMask
  stolen : ∀ q, cpu ∈ (d1.processInfo q).stolenCpus ↔ cpu ∈ (d.processInfo q).stolenCpus

/-- The process in slot `q` loses the CPU, which is stolen from it. -/
structure Loses (d d1 : Shdata) (q cpu : ℕ) : Prop where
  pid : (d.processInfo q).pid ≠ 0
  future : cpu ∈ (d.processInfo q).futureProcessMask ∧ cpu ∉ (d1.processInfo q).futureProcessMask
  stolen : cpu ∉ (d.processInfo q).stolenCpus ∧ cpu ∈ (d1.processInfo q).stolenCpus

/-- The process in slot `q` gets back the CPU, which was stolen from it. -/
structure Regains (d d1 : Shdata) (q cpu : ℕ) : Prop where
  pid : (d.processInfo q).pid ≠ 0
  future : cpu ∉ (d.processInfo q).futureProcessMask ∧ cpu ∈ (d1.processInfo q).futureProcessMask
  stolen : cpu ∈ (d.processInfo q).stolenCpus ∧ cpu ∉ (d1.processInfo q).stolenCpus

theorem SameAt.refl (cpu : ℕ) (d : Shdata) : SameAt cpu d d :=
  ⟨Iff.rfl, fun _ => rfl, fun _ => Iff.rfl, fun _ => Iff.rfl⟩

theorem SameAt.trans (h1 : SameAt cpu d d1) (h2 : SameAt cpu d1 d2) : SameAt cpu d d2 where
  free := h2.free.trans h1.free
  pid q := (h2.pid q).trans (h1.pid q)
  future q := (h2.future q).trans (h1.future q)
  stolen q := (h2.stolen q).trans (h1.stolen q)

theorem SameAt.loses_iff (h : SameAt cpu d d1) : Loses d1 d2 q cpu ↔ Loses d d2 q cpu :=
  ⟨fun ⟨hp, hf, hs⟩ => ⟨h.pid q ▸ hp, by rwa [h.future] at hf, by rwa [h.stolen] at hs⟩,
    fun ⟨hp, hf, hs⟩ => ⟨(h.pid q).symm ▸ hp, by rwa [h.future], by rwa [h.stolen]⟩⟩

theorem SameAt.regains_iff (h : SameAt cpu d d1) : Regains d1 d2 q cpu ↔ Regains d d2 q cpu :=
  ⟨fun ⟨hp, hf, hs⟩ => ⟨h.pid q ▸ hp, by rwa [h.future] at hf, by rwa [h.stolen] at hs⟩,
    fun ⟨hp, hf, hs⟩ => ⟨(h.pid q).symm ▸ hp, by rwa [h.future], by rwa [h.stolen]⟩⟩

theorem SameAt.loses_iff' (h : SameAt cpu d1 d2) : Loses d d2 q cpu ↔ Loses d d1 q cpu :=
  ⟨fun ⟨hp, hf, hs⟩ => ⟨hp, by rwa [h.future] at hf, by rwa [h.stolen] at hs⟩,
    fun ⟨hp, hf, hs⟩ => ⟨hp, by rwa [h.future], by rwa [h.stolen]⟩⟩

theorem SameAt.regains_iff' (h : SameAt cpu d1 d2) : Regains d d2 q cpu ↔ Regains d d1 q cpu :=
  ⟨fun ⟨hp, hf, hs⟩ => ⟨hp, by rwa [h.future] at hf, by rwa [h.stolen] at hs⟩,
    fun ⟨hp, hf, hs⟩ => ⟨hp, by rwa [h.future], by rwa [h.stolen]⟩⟩

theorem SameAt.set (hpid : info.pid = (d.processInfo p).pid)
    (hf : cpu ∈ info.futureProcessMask ↔ cpu ∈ (d.processInfo p).futureProcessMask)
    (hs : cpu ∈ info.stolenCpus ↔ cpu ∈ (d.processInfo p).stolenCpus) : SameAt cpu d (d.set p info) := by
  refine ⟨Iff.rfl, fun q => ?_, fun q => ?_, fun q => ?_⟩
  all_goals
    by_cases hq : q = p
    · subst hq
      rw [set_same_slot]
      assumption
    · rw [set_other_slot d info hq]

theorem SameAt.freed {free : CpuSet} (h : cpu ∈ free ↔ cpu ∈ d.freeMask) : SameAt cpu d { d with freeMask := free } :=
  ⟨h, fun _ => rfl, fun _ => Iff.rfl, fun _ => Iff.rfl⟩

/-! ## What a new mask does -/

/-- The CPU was free, or exactly one other process loses it. -/
def Gained (d d1 : Shdata) (p cpu : ℕ) : Prop :=
  (cpu ∈ d.freeMask ∧ cpu ∉ d1.freeMask ∧ ∀ q ≠ p, ¬Loses d d1 q cpu) ∨
    (cpu ∉ d.freeMask ∧ ∃! q, q ≠ p ∧ Loses d d1 q cpu)

/-- The CPU becomes free, or it goes back to exactly one other process. -/
def Dropped (d d1 : Shdata) (p cpu : ℕ) (returnStolen : Bool) : Prop :=
  (cpu ∈ d1.freeMask ∧ ∀ q ≠ p, ¬Regains d d1 q cpu) ∨
    (returnStolen = true ∧ cpu ∉ d1.freeMask ∧ ∃! q, q ≠ p ∧ Regains d d1 q cpu)

/-- Every CPU that the process in slot `p` gains or drops is accounted for, and nothing else changes. -/
structure Moved (d d1 : Shdata) (p : ℕ) (mask : CpuSet) (returnStolen : Bool) : Prop where
  future : (d1.processInfo p).futureProcessMask = mask
  gained : ∀ cpu ∈ mask, cpu ∉ (d.processInfo p).futureProcessMask → Gained d d1 p cpu
  dropped : ∀ cpu ∈ (d.processInfo p).futureProcessMask, cpu ∉ mask → Dropped d d1 p cpu returnStolen
  kept : ∀ cpu, (cpu ∈ mask ↔ cpu ∈ (d.processInfo p).futureProcessMask) → SameAt cpu d d1

/-- An error leaves the shared memory as it is, and otherwise the process has the mask. -/
def AllOrNothing (d : Shdata) (p : ℕ) (mask : CpuSet) (returnStolen : Bool) (r : Shdata × Output) : Prop :=
  (r.2.error ≠ .success → r.1 = d) ∧ (r.2.error = .success → Moved d r.1 p mask returnStolen)

theorem Gained.before (hsame : SameAt cpu d d1) (h : Gained d1 d2 p cpu) : Gained d d2 p cpu := by
  unfold Gained at h ⊢
  simpa only [hsame.free, hsame.loses_iff] using h

theorem Gained.after (hsame : SameAt cpu d1 d2) (h : Gained d d1 p cpu) : Gained d d2 p cpu := by
  unfold Gained at h ⊢
  simpa only [hsame.free, hsame.loses_iff'] using h

theorem Dropped.before {returnStolen : Bool} (hsame : SameAt cpu d d1) (h : Dropped d1 d2 p cpu returnStolen) :
    Dropped d d2 p cpu returnStolen := by
  unfold Dropped at h ⊢
  simpa only [hsame.regains_iff] using h

theorem Dropped.after {returnStolen : Bool} (hsame : SameAt cpu d1 d2) (h : Dropped d d1 p cpu returnStolen) :
    Dropped d d2 p cpu returnStolen := by
  unfold Dropped at h ⊢
  simpa only [hsame.free, hsame.regains_iff'] using h

/-! ## The steal -/

structure Robbed (S : System) (p : ℕ) (m : CpuSet) (d d1 : Shdata) (q : ℕ) : Prop where
  other : q ≠ p
  pid : (d.processInfo q).pid ≠ 0
  clean : (d.processInfo q).dirty = false
  info : d1.processInfo q = robbed S (d.processInfo q) ((d.processInfo q).currentProcessMask ∩ m)

/-- The loop of a steal that succeeds: some processes are robbed, of all CPUs that are no longer left. -/
structure Steals (S : System) (p : ℕ) (m : CpuSet) (ps : List ℕ) (left : CpuSet) (d d1 : Shdata) (left1 : CpuSet) : Prop where
  free : d1.freeMask = d.freeMask
  slot : ∀ q, d1.processInfo q = d.processInfo q ∨ (q ∈ ps ∧ Robbed S p m d d1 q)
  taken : ∀ cpu ∈ left, cpu ∉ left1 → ∃ q, Robbed S p m d d1 q ∧ cpu ∈ (d.processInfo q).currentProcessMask

theorem stealLoop_steals (hfit : Fits S m) (ps : List ℕ) (hnodup : ps.Nodup) (hl : left ⊆ m)
    (hok : (stealLoop S p m false ps d left).2.2 = .success) :
    Steals S p m ps left d (stealLoop S p m false ps d left).1 (stealLoop S p m false ps d left).2.1 := by
  induction ps generalizing d left with
  | nil => exact ⟨rfl, fun _ => .inl rfl, fun cpu hc hn => absurd hc hn⟩
  | cons q ps ih =>
    obtain ⟨hnot, hrest⟩ := nodup_cons.mp hnodup
    simp only [stealLoop] at hok ⊢
    split at hok
    swap
    · rename_i hq
      rw [if_neg hq]
      obtain ⟨hfree, hslot, htaken⟩ := ih hrest hl hok
      exact ⟨hfree, fun i => (hslot i).imp id fun hi => ⟨mem_cons_of_mem _ hi.1, hi.2⟩, htaken⟩
    rename_i hq
    rw [if_pos hq]
    split at hok
    · cases hok
    rename_i hclean
    rw [if_neg hclean]
    have hclean : (d.processInfo q).dirty = false := by simpa using hclean
    simp only [stealFrom, Bool.false_eq_true, if_false] at hok ⊢
    have hfl : Fits S left := fun x hx => hfit x (hl hx)
    rw [muSubtract_of_fits hfl hfl] at hok ⊢
    generalize hd1 : d.set q (robbed S (d.processInfo q) ((d.processInfo q).currentProcessMask ∩ m)) = d1 at hok ⊢
    have hrob : Robbed S p m d d1 q := ⟨hq.1, hq.2.1, hclean, by rw [← hd1, set_same_slot]⟩
    have hother : ∀ i, i ≠ q → d1.processInfo i = d.processInfo i := fun i hi => by rw [← hd1, set_other_slot d _ hi]
    have htarget : ∀ cpu ∈ left, cpu ∉ left \ ((d.processInfo q).currentProcessMask ∩ m) →
        cpu ∈ (d.processInfo q).currentProcessMask := by
      intro cpu hc hn
      by_contra hno
      exact hn (Finset.mem_sdiff.mpr ⟨hc, fun ht => hno (Finset.mem_inter.mp ht).1⟩)
    split at hok
    · rename_i hdone
      rw [if_pos hdone]
      refine ⟨by rw [← hd1]; rfl, fun i => ?_, fun cpu hc hn => ⟨q, hrob, htarget cpu hc hn⟩⟩
      by_cases hi : i = q
      · rw [hi]
        exact .inr ⟨mem_cons_self, hrob⟩
      · exact .inl (hother i hi)
    rename_i hmore
    rw [if_neg hmore]
    obtain ⟨hfree, hslot, htaken⟩ := ih hrest (Finset.sdiff_subset.trans hl) hok
    generalize stealLoop S p m false ps d1 (left \ ((d.processInfo q).currentProcessMask ∩ m)) = r at hfree hslot htaken ⊢
    -- a process is robbed once: those after `q` are as they were
    have hlater : ∀ i, Robbed S p m d1 r.1 i → i ∈ ps → Robbed S p m d r.1 i := by
      intro i hi hmem
      have hiq : i ≠ q := fun e => hnot (e ▸ hmem)
      exact ⟨hi.other, hother i hiq ▸ hi.pid, hother i hiq ▸ hi.clean, by rw [hi.info, hother i hiq]⟩
    have hself : r.1.processInfo q = d1.processInfo q := (hslot q).resolve_right fun hi => hnot hi.1
    have hrob' : Robbed S p m d r.1 q := ⟨hrob.other, hrob.pid, hrob.clean, hself.trans hrob.info⟩
    refine ⟨hfree.trans (by rw [← hd1]; rfl), fun i => ?_, fun cpu hc hn => ?_⟩
    · by_cases hi : i = q
      · rw [hi]
        exact .inr ⟨mem_cons_self, hrob'⟩
      · rcases hslot i with hsame | ⟨hmem, hi'⟩
        · exact .inl (hsame.trans (hother i hi))
        · exact .inr ⟨mem_cons_of_mem _ hmem, hlater i hi' hmem⟩
    · by_cases hcq : cpu ∈ left \ ((d.processInfo q).currentProcessMask ∩ m)
      · obtain ⟨i, hi, hci⟩ := htaken cpu hcq hn
        by_cases hiq : i = q
        · exact ⟨q, hrob', htarget cpu hc fun _ => hn (by
            have := hiq ▸ hi.clean
            rw [hrob.info] at this
            cases this)⟩
        · refine ⟨i, ⟨hi.other, hother i hiq ▸ hi.pid, hother i hiq ▸ hi.clean, by rw [hi.info, hother i hiq]⟩, ?_⟩
          rw [← hother i hiq]
          exact hci
      · exact ⟨q, hrob', htarget cpu hc hcq⟩

theorem Robbed.masks (h : Sound S d) (hq : Robbed S p m d d1 q) :
    (d1.processInfo q).pid = (d.processInfo q).pid ∧
      (d1.processInfo q).futureProcessMask = (d.processInfo q).futureProcessMask \ m ∧
      (d1.processInfo q).stolenCpus = (d.processInfo q).stolenCpus ∪ (d.processInfo q).futureProcessMask ∩ m := by
  rw [hq.info, robbed_of_ok (h.slot q) hq.clean, ← (h.slot q).clean hq.clean]
  exact ⟨rfl, Finset.sdiff_inter_self_left _ _, rfl⟩

theorem stealMask_gained (h : Sound S d) (hfit : Fits S m) (hdisj : Disjoint m (d.processInfo p).futureProcessMask)
    (hdry : (stealMask S d p m true).2 = .success) :
    (∀ cpu ∉ m, SameAt cpu d (stealMask S d p m false).1) ∧ ∀ cpu ∈ m, Gained d (stealMask S d p m false).1 p cpu := by
  unfold stealMask at hdry ⊢
  split at hdry
  · rename_i hempty
    subst hempty
    exact ⟨fun cpu _ => .refl cpu d, fun cpu hc => absurd hc (Finset.notMem_empty cpu)⟩
  rename_i hne
  rw [if_neg hne]
  have hloop := (stealLoop_dry S p m d d (range d.numProcesses) nodup_range m fun _ _ => rfl).2
  simp only [if_true, hloop] at hdry
  simp only [Bool.false_eq_true, if_false, hdry, if_true]
  obtain ⟨hok, hleft⟩ := stealError_success hdry
  obtain ⟨hfree, hslot, htaken⟩ := stealLoop_steals hfit (range d.numProcesses) nodup_range subset_rfl hok
  rw [hleft] at htaken
  generalize (stealLoop S p m false (range d.numProcesses) d m).1 = d1 at hfree hslot htaken ⊢
  have hself : d1.processInfo p = d.processInfo p := (hslot p).resolve_right fun hi => hi.2.other rfl
  constructor
  · intro cpu hcpu
    refine SameAt.trans ⟨by rw [hfree], fun q => ?_, fun q => ?_, fun q => ?_⟩ (.set rfl ?_ ?_)
    · rcases hslot q with heq | ⟨-, hq⟩
      · rw [heq]
      · exact (hq.masks h).1
    · rcases hslot q with heq | ⟨-, hq⟩
      · rw [heq]
      · simp [(hq.masks h).2.1, hcpu]
    · rcases hslot q with heq | ⟨-, hq⟩
      · rw [heq]
      · simp [(hq.masks h).2.2, hcpu]
    · simp [granted, hcpu]
    · rw [hself, granted_of_ok (h.slot p)]
      simp [hcpu]
  · intro cpu hcpu
    obtain ⟨q, hq, hcq⟩ := htaken cpu hcpu (Finset.notMem_empty cpu)
    rw [(h.slot q).clean hq.clean] at hcq
    have hown : cpu ∈ holders d (some q) := by
      rw [h.holder]
      exact hcq
    refine .inr ⟨h.part.notMem (x := some q) (y := none) (by simp) hown, q, ⟨hq.other, hq.pid, ⟨hcq, ?_⟩, ⟨?_, ?_⟩⟩, ?_⟩
    · rw [set_other_slot _ _ hq.other, (hq.masks h).2.1]
      simp [hcpu]
    · exact Finset.disjoint_right.mp (h.slot q).stolen hcq
    · rw [set_other_slot _ _ hq.other, (hq.masks h).2.2]
      simp [hcpu, hcq]
    · -- nobody else has the CPU
      rintro q' ⟨-, hq'⟩
      by_contra hne'
      refine h.part.notMem (y := some q') (fun e => hne' (Option.some.inj e).symm) hown ?_
      rw [h.holder]
      exact hq'.future.1

/-! ## Registering and unregistering -/

theorem registerMask_gained (h : Sound S d) (hm : m ⊆ d.freeMask)
    (heq : registerMask S d (d.processInfo p) m = (d1, info, .success)) :
    (∀ cpu ∉ m, SameAt cpu d (d1.set p info)) ∧ ∀ cpu ∈ m, Gained d (d1.set p info) p cpu := by
  rcases registerMask_cases h (d.processInfo p) (fits_of_subset (hm.trans h.free_subset)) with ⟨-, hcase⟩ | hcase
  · rw [heq] at hcase
    cases hcase
    constructor
    · intro cpu hcpu
      refine (SameAt.freed ?_).trans (.set ?_ ?_ ?_)
      · simp [hcpu]
      all_goals
        split
        · rfl
        · simp [granted_of_ok (h.slot p), hcpu]
    · intro cpu hcpu
      refine .inl ⟨hm hcpu, by simp [Shdata.set, hcpu], fun q hq hloses => hloses.future.2 ?_⟩
      rw [set_other_slot _ _ hq]
      exact hloses.future.1
  · rw [heq] at hcase
    cases congrArg (·.2.2) hcase

theorem unregisterCpu_dropped (h : Sound S d) (hcpu : cpu ∈ (d.processInfo p).futureProcessMask) :
    (∀ x ≠ cpu, SameAt x d (unregisterCpu p d cpu)) ∧ Dropped d (unregisterCpu p d cpu) p cpu true := by
  unfold unregisterCpu giveBack
  split
  · rename_i q hscan
    obtain ⟨-, hq, -⟩ := Lib.scan_some hscan
    simp only [ne_eq, decide_eq_true_eq] at hq
    have hqp : q ≠ p := by
      rintro rfl
      exact Finset.disjoint_left.mp (h.slot q).stolen hq.2 hcpu
    have hnot : cpu ∉ holders d (some q) := by
      refine h.part.notMem (x := some p) (by simpa using hqp.symm) ?_
      rw [h.holder]
      exact hcpu
    simp only [Shdata.modify, set_other_slot _ _ hqp.symm]
    constructor
    · intro x hx
      have hgiven : SameAt x d (d.set q (givenBack (d.processInfo q) cpu)) :=
        .set rfl (by simp [givenBack, hx]) (by simp [givenBack, hx])
      refine hgiven.trans (.set ?_ ?_ ?_)
      all_goals rw [set_other_slot _ _ hqp.symm]
      simp [hx]
    · refine .inr ⟨rfl, ?_, q, ⟨hqp, hq.1, ⟨?_, ?_⟩, ⟨hq.2, ?_⟩⟩, fun q' hq' => ?_⟩
      · refine h.part.notMem (x := some p) (y := none) (by simp) ?_
        rw [h.holder]
        exact hcpu
      · rwa [h.holder] at hnot
      · rw [set_other_slot _ _ hqp, set_same_slot]
        simp [givenBack]
      · rw [set_other_slot _ _ hqp, set_same_slot]
        simp [givenBack]
      · -- no other slot changes
        by_contra hne
        refine hq'.2.future.1 ?_
        have := hq'.2.future.2
        rwa [set_other_slot _ _ hq'.1, set_other_slot _ _ hne] at this
  · simp only [Shdata.modify]
    constructor
    · intro x hx
      refine (SameAt.freed ?_).trans (.set rfl ?_ Iff.rfl)
      · simp [hx]
      · simp [hx]
    · refine .inl ⟨Finset.mem_insert_self _ _, fun q hq hregains => hregains.future.1 ?_⟩
      have := hregains.future.2
      rwa [set_other_slot _ _ hq] at this

theorem foldl_unregisterCpu_dropped (cpus : List ℕ) (hnodup : cpus.Nodup) (h : Sound S d)
    (hcpus : ∀ cpu ∈ cpus, cpu ∈ (d.processInfo p).futureProcessMask) :
    (∀ x ∉ cpus, SameAt x d (cpus.foldl (unregisterCpu p) d)) ∧
      ∀ x ∈ cpus, Dropped d (cpus.foldl (unregisterCpu p) d) p x true := by
  induction cpus generalizing d with
  | nil => exact ⟨fun x _ => .refl x d, fun x hx => absurd hx not_mem_nil⟩
  | cons cpu rest ih =>
    obtain ⟨hnot, hrest⟩ := nodup_cons.mp hnodup
    obtain ⟨hs, hfuture⟩ := unregisterCpu_sound h (hcpus cpu mem_cons_self)
    obtain ⟨hsame, hdropped⟩ := unregisterCpu_dropped h (hcpus cpu mem_cons_self)
    have hkept : ∀ x ∈ rest, x ∈ ((unregisterCpu p d cpu).processInfo p).futureProcessMask := by
      intro x hx
      rw [hfuture]
      refine Finset.mem_erase.mpr ⟨?_, hcpus x (mem_cons_of_mem _ hx)⟩
      rintro rfl
      exact hnot hx
    obtain ⟨hsame', hdropped'⟩ := ih hrest hs hkept
    refine ⟨fun x hx => ?_, fun x hx => ?_⟩
    · rw [mem_cons, not_or] at hx
      exact (hsame x hx.1).trans (hsame' x hx.2)
    · rcases mem_cons.mp hx with rfl | hmem
      · exact hdropped.after (hsame' x hnot)
      · refine (hdropped' x hmem).before (hsame x ?_)
        rintro rfl
        exact hnot hmem

theorem unregisterMask_dropped (h : Sound S d) (hm : m ⊆ (d.processInfo p).futureProcessMask) (returnStolen : Bool) :
    (∀ cpu ∉ m, SameAt cpu d (unregisterMask S d p m returnStolen)) ∧
      ∀ cpu ∈ m, Dropped d (unregisterMask S d p m returnStolen) p cpu returnStolen := by
  unfold unregisterMask
  split
  · rename_i hempty
    subst hempty
    exact ⟨fun cpu _ => .refl cpu d, fun cpu hc => absurd hc (Finset.notMem_empty cpu)⟩
  rw [if_neg (by simp [h.sharing])]
  split
  · rename_i hreturn
    have hmem : ∀ x, x ∈ (range S.size).filter (· ∈ m) ↔ x ∈ m := by
      intro x
      simp only [mem_filter, mem_range, decide_eq_true_eq, and_iff_right_iff_imp]
      exact fun hx => System.lt_size (h.future_subset p (hm hx))
    have := foldl_unregisterCpu_dropped ((range S.size).filter (· ∈ m)) (nodup_range.filter _) h
      fun cpu hcpu => hm ((hmem cpu).mp hcpu)
    simp only [hmem] at this
    rwa [hreturn]
  · have hfit := fits_of_subset (h.future_subset p)
    simp only [Shdata.modify, muSubtract_of_fits hfit hfit]
    constructor
    · intro cpu hcpu
      refine (SameAt.freed ?_).trans (.set rfl ?_ Iff.rfl)
      · simp [hcpu]
      · simp [hcpu]
    · intro cpu hcpu
      refine .inl ⟨Finset.mem_union_right _ hcpu, fun q hq hregains => hregains.future.1 ?_⟩
      have := hregains.future.2
      rwa [set_other_slot _ _ hq] at this

/-! ## All or nothing -/

theorem setNewMask_moved {returnStolen : Bool} (h : Sound S d) (hpid : (d.processInfo p).pid ≠ 0)
    (hclean : (d.processInfo p).dirty = false) (hmask : ∀ cpu ∈ mask, cpu < S.size)
    (hsuccess : (setNewMask S d p mask returnStolen).2.error = .success) :
    Moved d (setNewMask S d p mask returnStolen).1 p mask returnStolen := by
  have hfuture : ((setNewMask S d p mask returnStolen).1.processInfo p).futureProcessMask = mask := by
    rcases setNewMask_sound h hpid hclean mask returnStolen with ⟨-, -, hfuture⟩ | ⟨hno, -⟩
    · rw [hfuture]
      exact Finset.filter_true_of_mem hmask
    · exact absurd hsuccess hno
  have hcurrent := (h.slot p).clean hclean
  have hfit : Fits S (cpusToSteal S d (d.processInfo p) mask) := fits_of_lt_size fun cpu hc =>
    Finset.mem_range.mp (Finset.mem_filter.mp hc).1
  have hdisj : Disjoint (cpusToSteal S d (d.processInfo p) mask) (d.processInfo p).futureProcessMask :=
    Finset.disjoint_left.mpr fun cpu hc hf => (Finset.mem_filter.mp hc).2.2.2 (hcurrent ▸ hf)
  have hfree : ∀ cpu ∈ (d.processInfo p).futureProcessMask, cpu ∉ d.freeMask := fun cpu hc =>
    h.part.notMem (x := some p) (y := none) (by simp) (h.holder p ▸ hc)
  suffices hstages : (∀ cpu ∉ cpusToSteal S d (d.processInfo p) mask, cpu ∉ cpusToAcquire S d mask →
      cpu ∉ cpusToFree S (d.processInfo p) mask → SameAt cpu d (setNewMask S d p mask returnStolen).1) ∧
      (∀ cpu ∈ cpusToSteal S d (d.processInfo p) mask ∪ cpusToAcquire S d mask,
        Gained d (setNewMask S d p mask returnStolen).1 p cpu) ∧
      ∀ cpu ∈ cpusToFree S (d.processInfo p) mask,
        Dropped d (setNewMask S d p mask returnStolen).1 p cpu returnStolen by
    obtain ⟨hkept, hgained, hdropped⟩ := hstages
    refine ⟨hfuture, fun cpu hc hn => hgained cpu ?_, fun cpu hc hn => hdropped cpu ?_, fun cpu hiff => hkept cpu ?_ ?_ ?_⟩
    all_goals simp only [cpusToSteal, cpusToAcquire, cpusToFree, Finset.mem_union, Finset.mem_filter, Finset.mem_range,
      hcurrent]
    · have := hmask cpu hc
      tauto
    · exact ⟨System.lt_size (h.future_subset p hc), hn, hc⟩
    · tauto
    · exact fun hc => hfree cpu (hiff.mp hc.2.1) hc.2.2
    · tauto
  -- the classes of CPUs are apart
  have happart : ∀ cpu ∈ cpusToSteal S d (d.processInfo p) mask,
      cpu ∉ cpusToAcquire S d mask ∧ cpu ∉ cpusToFree S (d.processInfo p) mask := by
    intro cpu hc
    simp only [cpusToSteal, cpusToAcquire, cpusToFree, Finset.mem_filter] at hc ⊢
    tauto
  have happart' : ∀ cpu ∈ cpusToAcquire S d mask, cpu ∉ cpusToFree S (d.processInfo p) mask := by
    intro cpu hc
    simp only [cpusToAcquire, cpusToFree, Finset.mem_filter] at hc ⊢
    tauto
  unfold setNewMask at hsuccess ⊢
  rw [if_neg (by simp [h.sharing])] at hsuccess ⊢
  dsimp only at hsuccess ⊢
  rw [stealMask_dry] at hsuccess ⊢
  split at hsuccess
  · rename_i hno
    exact absurd hsuccess hno
  rename_i hdry
  rw [if_neg hdry]
  have hdry := not_not.mp hdry
  obtain ⟨hok, hs1, hfree1, hfuture₁, hpid1, -⟩ := stealMask_sound h hfit hpid hdry
  obtain ⟨hsame1, hgained₁⟩ := stealMask_gained h hfit hdisj hdry
  rw [if_neg (not_not.mpr hok)]
  generalize (stealMask S d p (cpusToSteal S d (d.processInfo p) mask) false).1 = d1 at *
  have hacquire : cpusToAcquire S d mask ⊆ d1.freeMask := by
    rw [hfree1]
    exact fun cpu hc => (Finset.mem_filter.mp hc).2.2
  obtain ⟨info, heq, hs2, hfuture₂, -⟩ := registerMask_sound (p := p) hs1 hacquire fun _ => hpid1 ▸ hpid
  obtain ⟨hsame2, hgained₂⟩ := registerMask_gained hs1 hacquire heq
  rw [heq]
  generalize hd2 : { d1 with freeMask := d1.freeMask \ cpusToAcquire S d mask }.set p info = d2 at hs2 hsame2 hgained₂ ⊢
  have hsub : cpusToFree S (d.processInfo p) mask ⊆ (d2.processInfo p).futureProcessMask := by
    rw [← hd2, set_same_slot, hfuture₂, hfuture₁, ← hcurrent]
    exact fun cpu hc => Finset.mem_union_left _ (Finset.mem_union_left _ (Finset.mem_filter.mp hc).2.2)
  obtain ⟨hsame3, hdropped₃⟩ := unregisterMask_dropped hs2 hsub returnStolen
  refine ⟨fun cpu hst ha hf => ((hsame1 cpu hst).trans (hsame2 cpu ha)).trans (hsame3 cpu hf), fun cpu hc => ?_,
    fun cpu hc => ?_⟩
  · by_cases hst : cpu ∈ cpusToSteal S d (d.processInfo p) mask
    · exact ((hgained₁ cpu hst).after (hsame2 cpu (happart cpu hst).1)).after (hsame3 cpu (happart cpu hst).2)
    · have ha := (Finset.mem_union.mp hc).resolve_left hst
      exact ((hgained₂ cpu ha).before (hsame1 cpu hst)).after (hsame3 cpu (happart' cpu ha))
  · have hst : cpu ∉ cpusToSteal S d (d.processInfo p) mask := fun hst => (happart cpu hst).2 hc
    have ha : cpu ∉ cpusToAcquire S d mask := fun ha => happart' cpu ha hc
    exact (hdropped₃ cpu hc).before ((hsame1 cpu hst).trans (hsame2 cpu ha))

/-- **All or nothing.** In every state that admitted calls reach, setting the mask of a process that is not dirty either
fails and changes nothing, or moves each CPU from and to one place. -/
theorem set_new_mask_all_or_nothing (h : Reachable S (Admitted S) d) (hpid : (d.processInfo p).pid ≠ 0)
    (hclean : (d.processInfo p).dirty = false) (hmask : ∀ cpu ∈ mask, cpu < S.size) (returnStolen : Bool) :
    AllOrNothing d p mask returnStolen (setNewMask S d p mask returnStolen) := by
  have hi := reachable_inv h
  have hs : Sound S d := hi.sound <| by
    by_contra hinit
    rw [hi.zeroed (by simpa using hinit)] at hpid
    exact hpid rfl
  refine ⟨fun herror => ?_, setNewMask_moved hs hpid hclean hmask⟩
  rcases setNewMask_sound hs hpid hclean mask returnStolen with ⟨hok, -⟩ | ⟨-, heq⟩
  · exact absurd hok herror
  · exact heq

/-- Process `2` has a CPU of its own and one that it stole from process `1`: it gives both away for the free one. -/
theorem set_new_mask_all_or_nothing_returns :
    let d := replay threeCpus [(caller, .init 1 0 {0} false), (caller, .init 2 0 {2} false),
      (caller, .setprocessmask 2 [] {0} {}), (caller, .polldrom 2 [])] {}
    AllOrNothing d 1 {1} true (setNewMask threeCpus d 1 {1} true) := by
  intro d
  have hrun : Reachable threeCpus (Admitted threeCpus) d := by
    refine replay_run fun d call hc => ?_
    simp only [mem_cons, not_mem_nil, or_false] at hc
    rcases hc with rfl | rfl | rfl | rfl
    · exact ⟨by decide, rfl, by unfold Fits; decide, fun h => absurd rfl h⟩
    · exact ⟨by decide, rfl, by unfold Fits; decide, fun h => absurd rfl h⟩
    · rintro p ⟨⟩
    · exact trivial
  exact set_new_mask_all_or_nothing hrun (by decide) (by decide) (by decide) true

/-- A CPU was stolen from the preregistered process `1`, and process `3` inherited it with its mask: dropping it,
process `3` returns it to itself and then takes it out of its mask. -/
theorem dropped_cpu_goes_nowhere :
    ¬∀ d p mask returnStolen, Reachable threeCpus InScope d → (d.processInfo p).pid ≠ 0 →
      (d.processInfo p).dirty = false → (∀ cpu ∈ mask, cpu < threeCpus.size) →
      AllOrNothing d p mask returnStolen (setNewMask threeCpus d p mask returnStolen) := by
  intro h
  have hrun : Reachable threeCpus InScope (replay threeCpus [(caller, .extInit), (caller, .preinit 1 {0, 1} {}),
      (caller, .init 2 0 {2} false), (caller, .setprocessmask 2 [] {1, 2} {}), (caller, .polldrom 1 []),
      (caller, .finalize 2 [] false), (caller, .init 3 1 {0, 1} false)] {}) := by
    refine replay_run fun d call hc => ?_
    simp only [mem_cons, not_mem_nil, or_false] at hc
    rcases hc with rfl | rfl | rfl | rfl | rfl | rfl | rfl
    · exact trivial
    · exact trivial
    · exact ⟨by decide, rfl⟩
    · rintro p ⟨⟩
    · exact trivial
    · exact trivial
    · exact ⟨by decide, rfl⟩
  have hmoved := (h _ 0 {0} true hrun (by decide) (by decide) (by decide)).2 (by decide)
  rcases hmoved.dropped 1 (by decide) (by decide) with ⟨hfree, -⟩ | ⟨-, -, q, ⟨hq, hregains⟩, -⟩
  · exact absurd hfree (by decide)
  · have hlt := (reachable_bounded hrun).lt_num hregains.pid
    have hnum : q < 2 := lt_of_lt_of_eq hlt (by decide)
    obtain rfl : q = 1 := by omega
    exact hregains.pid (by decide)

end Dlb.Procinfo

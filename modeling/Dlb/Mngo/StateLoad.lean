import Dlb.Procinfo.Settled

/-!
# Swapping masks in two phases

`mngo_state__load`: every process of the node first sets the mask of the CPUs that it has and keeps, and after a
barrier its target mask. What the first calls free, the second calls find free: no call has to steal.

* one call of `shmem_procinfo__setprocessmask` for free CPUs (`setprocessmask_free`);
* along every run, each process has the mask of its phase, and the free CPUs are those that nobody has (`Swapping`);
* `swap_completes`: whatever has happened, the swap can be brought to its end.
-/

namespace Dlb.Mngo

open Finset Function Procinfo

variable {S : System} {d d' : Procinfo.Shdata} {mask : CpuSet} {p q : ℕ} {owner : Pinfo}

/-! ## Setting a mask of free CPUs -/

theorem registerMask_free (hs : d.allowCpuSharing = false) (hm : mask ⊆ d.freeMask) (hfit : Fits S mask) (owner : Pinfo) :
    ∃ info, registerMask S d owner mask = ({ d with freeMask := d.freeMask \ mask }, info, .success) ∧
      info.futureProcessMask = owner.futureProcessMask ∪ mask ∧ info.stolenCpus ⊆ owner.stolenCpus := by
  unfold registerMask
  split
  · rename_i hempty
    subst hempty
    exact ⟨owner, by simp, by simp, Finset.Subset.refl _⟩
  · have hsub : muIsSubset S mask d.freeMask = true := by
      simpa [muIsSubset, filter_true_of_mem hfit] using hm
    rw [if_neg (by simp [hs]), if_pos hsub, muSubtract_self hfit]
    exact ⟨granted S owner mask, rfl, rfl, muSubtract_subset⟩

/-- What a call does that moves the CPUs in `acquired` from the `free_mask` to slot `p`, and those in `freed` back. -/
structure Exchanges (d d' : Procinfo.Shdata) (p : ℕ) (acquired freed : CpuSet) : Prop where
  initialized : d'.initialized = d.initialized
  sharing : d'.allowCpuSharing = d.allowCpuSharing
  free : d'.freeMask = d.freeMask \ acquired ∪ freed
  future : (d'.processInfo p).futureProcessMask = ((d.processInfo p).futureProcessMask ∪ acquired) \ freed
  stolen : (d'.processInfo p).stolenCpus ⊆ (d.processInfo p).stolenCpus
  other : ∀ q, q ≠ p → d'.processInfo q = d.processInfo q

theorem unregisterMask_exchanges (hs : d.allowCpuSharing = false) (hfit : Fits S mask) :
    Exchanges d (unregisterMask S d p mask false) p ∅ mask := by
  unfold unregisterMask
  split
  · rename_i hempty
    subst hempty
    exact ⟨rfl, rfl, by simp, by simp, Finset.Subset.refl _, fun _ _ => rfl⟩
  · rw [if_neg (by simp [hs]), if_neg (by simp)]
    refine ⟨rfl, rfl, by simp [Shdata.modify, Shdata.set], ?_, ?_, fun q hq => ?_⟩
    · simp [Shdata.modify, muSubtract_self hfit]
    · simp [Shdata.modify]
    · exact set_other_slot _ _ hq

theorem setNewMask_exchanges (hs : d.allowCpuSharing = false)
    (hsteal : cpusToSteal S d (d.processInfo p) mask = ∅) :
    (setNewMask S d p mask false).2.error = .success ∧
      Exchanges d (setNewMask S d p mask false).1 p (cpusToAcquire S d mask) (cpusToFree S (d.processInfo p) mask) := by
  have hacquire : cpusToAcquire S d mask ⊆ d.freeMask := fun c hc => (mem_filter.mp hc).2.2
  have hfits : ∀ cpus : CpuSet, cpus ⊆ range S.size → Fits S cpus := fun cpus h c hc =>
    (mem_range.mp (h hc)).trans_le S.size_le_bits
  have hfit := hfits (cpusToAcquire S d mask) (filter_subset _ _)
  have hfit' := hfits (cpusToFree S (d.processInfo p) mask) (filter_subset _ _)
  obtain ⟨info, hregister, hfuture, hstolen⟩ := registerMask_free hs hacquire hfit (d.processInfo p)
  unfold setNewMask
  rw [if_neg (by simp [hs])]
  simp only [hsteal, stealMask, if_true, ne_eq, not_true_eq_false, if_false, hregister, true_and]
  have hfree := unregisterMask_exchanges (S := S) (p := p)
    (d := { d with freeMask := d.freeMask \ cpusToAcquire S d mask }.set p info) hs hfit'
  refine ⟨hfree.initialized, hfree.sharing, ?_, ?_, ?_, fun q hq => ?_⟩
  · rw [hfree.free, sdiff_empty]
    rfl
  · rw [hfree.future, set_same_slot, hfuture, union_empty]
  · have hkeeps := hfree.stolen
    rw [set_same_slot] at hkeeps
    exact hkeeps.trans hstolen
  · rw [hfree.other q hq, set_other_slot _ _ hq]

/-- What a call does after which the process in slot `p` has the mask. -/
structure SetsMask (d d' : Procinfo.Shdata) (p : ℕ) (mask : CpuSet) : Prop where
  initialized : d'.initialized = d.initialized
  sharing : d'.allowCpuSharing = d.allowCpuSharing
  free : ∀ cpu, cpu ∈ d'.freeMask ↔ (cpu ∈ d.freeMask ∨ cpu ∈ (d.processInfo p).currentProcessMask) ∧ cpu ∉ mask
  clean : (d'.processInfo p).dirty = false
  current : (d'.processInfo p).currentProcessMask = mask
  future : (d'.processInfo p).futureProcessMask = mask
  stolen : (d'.processInfo p).stolenCpus ⊆ (d.processInfo p).stolenCpus
  other : ∀ q, q ≠ p → d'.processInfo q = d.processInfo q

theorem setprocessmask_free {c : Procinfo.Caller} (hc : c.myPinfo = some p) (hinit : d.initialized = true)
    (hs : d.allowCpuSharing = false) (hclean : (d.processInfo p).dirty = false) (hsettled : (d.processInfo p).Settled)
    (hmask : ∀ cpu ∈ mask, cpu < S.size ∧ (cpu ∈ d.freeMask ∨ cpu ∈ (d.processInfo p).currentProcessMask))
    (hsize : ∀ cpu ∈ (d.processInfo p).currentProcessMask, cpu < S.size) :
    (exec S c d (.setprocessmask 0 [] mask {})).2.error = .success ∧
      SetsMask d (exec S c d (.setprocessmask 0 [] mask {})).1 p mask := by
  have hsteal : cpusToSteal S d (d.processInfo p) mask = ∅ := by
    refine filter_eq_empty_iff.mpr fun cpu _ hcpu => ?_
    have hhas := (hmask cpu hcpu.1).2
    tauto
  obtain ⟨hok, hmoves⟩ := setNewMask_exchanges hs hsteal
  have hcall : exec S c d (.setprocessmask 0 [] mask {}) =
      ((setNewMask S d p mask false).1.modify p resolve, (setNewMask S d p mask false).2) := by
    simp [exec, hinit, setprocessmask, isSelf, hc, setprocessmaskSelf, setOwnMask, hclean, hok]
  have hfuture : ((setNewMask S d p mask false).1.processInfo p).futureProcessMask = mask := by
    rw [hmoves.future, ← hsettled hclean]
    ext cpu
    have hin := hmask cpu
    simp only [cpusToAcquire, cpusToFree, mem_sdiff, mem_union, mem_filter, mem_range]
    tauto
  rw [hcall]
  refine ⟨hok, ⟨hmoves.initialized, hmoves.sharing, fun cpu => ?_, ?_, ?_, ?_, ?_, fun q hq => ?_⟩⟩
  · have hin := hmask cpu
    change cpu ∈ (setNewMask S d p mask false).1.freeMask ↔ _
    rw [hmoves.free]
    simp only [cpusToAcquire, cpusToFree, mem_sdiff, mem_union, mem_filter, mem_range]
    tauto
  · simp [Shdata.modify, resolve]
  · simpa [Shdata.modify, resolve] using hfuture
  · simpa [Shdata.modify, resolve] using hfuture
  · simpa [Shdata.modify, resolve] using hmoves.stolen
  · rw [Shdata.modify, set_other_slot _ _ hq, hmoves.other q hq]

/-! ## The processes of the node -/

/-- Where a process is in `mngo_state__load`: before it reads its mask, before its first call, at the barrier, before
its second call, or back with a code. -/
inductive LoadPhase where
  | start
  | loaded (currentMask : CpuSet)
  | waiting
  | released
  | returned (error : DlbError)
deriving DecidableEq

def LoadPhase.Arrived : LoadPhase → Prop
  | .start | .loaded _ => False
  | .waiting | .released => True
  | .returned error => error ≠ .noupdt

/-- The shared memory, and where each process is. -/
structure Loading (ι : Type*) where
  shdata : Procinfo.Shdata
  phase : ι → LoadPhase

variable {ι : Type*} [DecidableEq ι] (caller : ι → Procinfo.Caller) (target : ι → CpuSet)

/-- One step of one process. A process passes the barrier once everybody has arrived. -/
inductive LoadStep (S : System) : Loading ι → Loading ι → Prop
  | read {s : Loading ι} (i : ι) : s.phase i = .start →
      LoadStep S s
        { shdata := (exec S (caller i) s.shdata (.getprocessmask 0 [])).1
          phase := update s.phase i
            (.loaded ((exec S (caller i) s.shdata (.getprocessmask 0 [])).2.mask.getD ∅)) }
  | free {s : Loading ι} (i : ι) (currentMask : CpuSet) : s.phase i = .loaded currentMask →
      LoadStep S s
        { shdata := (exec S (caller i) s.shdata (.setprocessmask 0 [] (currentMask ∩ target i) {})).1
          phase := update s.phase i
            (if (exec S (caller i) s.shdata (.setprocessmask 0 [] (currentMask ∩ target i) {})).2.error = .success
              then .waiting else .returned .noupdt) }
  | leave {s : Loading ι} (i : ι) : s.phase i = .waiting → (∀ j, (s.phase j).Arrived) →
      LoadStep S s { s with phase := update s.phase i .released }
  | load {s : Loading ι} (i : ι) : s.phase i = .released →
      LoadStep S s
        { shdata := (exec S (caller i) s.shdata (.setprocessmask 0 [] (target i) {})).1
          phase := update s.phase i
            (if (exec S (caller i) s.shdata (.setprocessmask 0 [] (target i) {})).2.error = .success
              then .returned .success else .returned .errPerm) }

/-- Where a swap starts: processes that are not dirty, in slots of their own, with masks and targets of CPUs of the
system that are apart. -/
structure SwapStart (S : System) (d : Procinfo.Shdata) (slot : ι → ℕ) : Prop where
  sharing : d.allowCpuSharing = false
  slots : Function.Injective slot
  own : ∀ i, (caller i).myPinfo = some (slot i)
  registered : ∀ i, (d.processInfo (slot i)).pid ≠ 0
  clean : ∀ i, (d.processInfo (slot i)).dirty = false
  apart : ∀ i j, i ≠ j →
    Disjoint (d.processInfo (slot i)).currentProcessMask (d.processInfo (slot j)).currentProcessMask
  system : ∀ i, (d.processInfo (slot i)).currentProcessMask ∪ target i ⊆ S.sysMask
  targetApart : ∀ i j, i ≠ j → Disjoint (target i) (target j)
  covered : ∀ i, ∀ cpu ∈ target i,
    cpu ∈ d.freeMask ∨ ∃ j, cpu ∈ (d.processInfo (slot j)).currentProcessMask

/-! ## The invariant -/

def held (current target : CpuSet) : LoadPhase → CpuSet
  | .start | .loaded _ => current
  | .waiting | .released => current ∩ target
  | .returned _ => target

/-- **What holds along a swap from `d`.** Each process has the mask of its phase, and the free CPUs are those that were
free or have been given up, less those of the processes that have arrived at the barrier. -/
structure Swapping (d : Procinfo.Shdata) (slot : ι → ℕ) (s : Loading ι) : Prop where
  initialized : s.shdata.initialized = d.initialized
  sharing : s.shdata.allowCpuSharing = false
  stays : ∀ q, (∀ i, slot i ≠ q) → s.shdata.processInfo q = d.processInfo q
  clean : ∀ i, (s.shdata.processInfo (slot i)).dirty = false
  current : ∀ i, (s.shdata.processInfo (slot i)).currentProcessMask =
    held (d.processInfo (slot i)).currentProcessMask (target i) (s.phase i)
  future : ∀ i, (s.shdata.processInfo (slot i)).futureProcessMask =
    held (d.processInfo (slot i)).currentProcessMask (target i) (s.phase i)
  stolen : ∀ i, (s.shdata.processInfo (slot i)).stolenCpus ⊆ (d.processInfo (slot i)).stolenCpus
  loaded : ∀ i currentMask, s.phase i = .loaded currentMask →
    currentMask = (d.processInfo (slot i)).currentProcessMask
  success : ∀ i error, s.phase i = .returned error → error = .success
  barrier : ∀ i, s.phase i = .released ∨ s.phase i = .returned .success → ∀ j, (s.phase j).Arrived
  free : ∀ cpu, cpu ∈ s.shdata.freeMask ↔
    (cpu ∈ d.freeMask ∨ ∃ i, (s.phase i).Arrived ∧ cpu ∈ (d.processInfo (slot i)).currentProcessMask) ∧
      ∀ i, (s.phase i).Arrived → cpu ∉ held (d.processInfo (slot i)).currentProcessMask (target i) (s.phase i)

variable {caller target} {slot : ι → ℕ} {s s' : Loading ι} {i : ι}

theorem held_start {current target : CpuSet} {phase : LoadPhase} (h : ¬phase.Arrived) (hs : phase ≠ .returned .noupdt) :
    held current target phase = current := by
  cases phase <;> simp_all [held, LoadPhase.Arrived]

theorem held_subset {current target : CpuSet} {phase : LoadPhase} :
    held current target phase ⊆ current ∪ target := by
  intro cpu hcpu
  cases phase <;> simp_all [held]

omit [DecidableEq ι] in
theorem Swapping.settled (h : Swapping target d slot s) (i : ι) : (s.shdata.processInfo (slot i)).Settled := fun _ => by
  rw [h.current i, h.future i]

omit [DecidableEq ι] in
theorem SwapStart.lt_size (h : SwapStart caller target S d slot) {cpu : ℕ}
    (hcpu : cpu ∈ (d.processInfo (slot i)).currentProcessMask ∪ target i) : cpu < S.size :=
  System.lt_size (h.system i hcpu)

omit [DecidableEq ι] in
theorem Swapping.before (h : Swapping target d slot s) {j : ι} (hi : ¬(s.phase i).Arrived) (hj : (s.phase j).Arrived) :
    s.phase j = .waiting := by
  cases hphase : s.phase j with
  | start => exact absurd hj (by simp [hphase, LoadPhase.Arrived])
  | loaded currentMask => exact absurd hj (by simp [hphase, LoadPhase.Arrived])
  | waiting => rfl
  | released => exact absurd (h.barrier j (.inl hphase) i) hi
  | returned error =>
    obtain rfl := h.success j error hphase
    exact absurd (h.barrier j (.inr hphase) i) hi

theorem Swapping.sets (h : Swapping target d slot s) (hslots : Function.Injective slot) {phase : LoadPhase}
    (hset : SetsMask s.shdata d' (slot i) mask)
    (hmask : held (d.processInfo (slot i)).currentProcessMask (target i) phase = mask)
    (hphase : phase = .waiting ∨ phase = .returned .success)
    (hbarrier : phase = .returned .success → ∀ j, (s.phase j).Arrived)
    (hkeeps : (s.phase i).Arrived →
      held (d.processInfo (slot i)).currentProcessMask (target i) (s.phase i) ⊆ mask)
    (hgives : ¬(s.phase i).Arrived → ∀ cpu ∈ (d.processInfo (slot i)).currentProcessMask, ∀ j, j ≠ i →
      (s.phase j).Arrived → cpu ∉ held (d.processInfo (slot j)).currentProcessMask (target j) (s.phase j)) :
    Swapping target d slot { shdata := d', phase := update s.phase i phase } := by
  have held_start : ¬(s.phase i).Arrived → held (d.processInfo (slot i)).currentProcessMask (target i) (s.phase i) =
      (d.processInfo (slot i)).currentProcessMask := fun harr => held_start harr fun he => by
    cases h.success i _ he
  have harrived : phase.Arrived := by
    rcases hphase with rfl | rfl
    · trivial
    · exact nofun
  have hother : ∀ j, j ≠ i → d'.processInfo (slot j) = s.shdata.processInfo (slot j) := fun j hj =>
    hset.other _ fun he => hj (hslots he)
  have hphases : ∀ j, j ≠ i → update s.phase i phase j = s.phase j := fun j hj => update_of_ne hj _ _
  -- a fact about the new phase of `i`, and the old one of everybody else
  have each : ∀ {P : ι → LoadPhase → Prop}, P i phase → (∀ j, j ≠ i → P j (s.phase j)) →
      ∀ j, P j (update s.phase i phase j) := fun {P} hi hj =>
    (Function.forall_update_iff s.phase P).mpr ⟨hi, hj⟩
  have hstays : ∀ j, (s.phase j).Arrived → (update s.phase i phase j).Arrived := fun j =>
    each (P := fun j p => (s.phase j).Arrived → p.Arrived) (fun _ => harrived) (fun _ _ => id) j
  refine ⟨hset.initialized.trans h.initialized, hset.sharing.trans h.sharing, fun q hq => ?_, fun j => ?_, ?_, ?_,
    fun j => ?_, ?_, ?_, ?_, fun cpu => ?_⟩
  · exact (hset.other q (hq i).symm).trans (h.stays q hq)
  · by_cases hji : j = i
    · exact hji ▸ hset.clean
    · rw [hother j hji]
      exact h.clean j
  · refine each (P := fun j p => (d'.processInfo (slot j)).currentProcessMask = held _ (target j) p) ?_ fun j hj => ?_
    · rw [hset.current, hmask]
    · rw [hother j hj]
      exact h.current j
  · refine each (P := fun j p => (d'.processInfo (slot j)).futureProcessMask = held _ (target j) p) ?_ fun j hj => ?_
    · rw [hset.future, hmask]
    · rw [hother j hj]
      exact h.future j
  · by_cases hji : j = i
    · exact hji ▸ hset.stolen.trans (h.stolen i)
    · rw [hother j hji]
      exact h.stolen j
  · refine each (P := fun j p => ∀ m, p = .loaded m → m = _) (fun m hm => ?_) fun j _ => h.loaded j
    rcases hphase with rfl | rfl <;> cases hm
  · refine each (P := fun _ p => ∀ e, p = .returned e → e = .success) (fun e he => ?_) fun j _ => h.success j
    rcases hphase with rfl | rfl <;> cases he
    rfl
  · refine each (P := fun _ p => p = .released ∨ p = .returned .success →
      ∀ k, (update s.phase i phase k).Arrived) (fun hp j => ?_) fun j _ hp k => ?_
    · rcases hphase with rfl | rfl
      · rcases hp with hp | hp <;> cases hp
      · exact hstays j (hbarrier rfl j)
    · exact hstays k (h.barrier j hp k)
  · have hi := h.current i
    dsimp only
    rw [hset.free, h.free, hi]
    constructor
    · rintro ⟨hcpu, hnot⟩
      refine ⟨?_, each (P := fun j p => p.Arrived → cpu ∉ held _ (target j) p) (fun _ => hmask ▸ hnot) fun j hj harr => ?_⟩
      · rcases hcpu with ⟨hcpu | ⟨j, harr, hcpu⟩, -⟩ | hcpu
        · exact .inl hcpu
        · exact .inr ⟨j, hstays j harr, hcpu⟩
        · by_cases harr : (s.phase i).Arrived
          · exact absurd (hkeeps harr hcpu) hnot
          · exact .inr ⟨i, by rwa [update_self], held_start harr ▸ hcpu⟩
      · rcases hcpu with ⟨-, hcpu⟩ | hcpu
        · exact hcpu j harr
        · by_cases harr' : (s.phase i).Arrived
          · exact absurd (hkeeps harr' hcpu) hnot
          · exact hgives harr' cpu (held_start harr' ▸ hcpu) j hj harr
    · rintro ⟨hcpu, hnone⟩
      have hnot : cpu ∉ mask := by
        have hself := hnone i
        rw [update_self, hmask] at hself
        exact hself harrived
      refine ⟨or_iff_not_imp_right.mpr fun hheld => ⟨?_, fun j harr => ?_⟩, hnot⟩
      · rcases hcpu with hcpu | ⟨j, harr, hcpu⟩
        · exact .inl hcpu
        · by_cases hji : j = i
          · subst hji
            by_cases harr' : (s.phase j).Arrived
            · exact .inr ⟨j, harr', hcpu⟩
            · rw [held_start harr'] at hheld
              exact absurd hcpu hheld
          · exact .inr ⟨j, hphases j hji ▸ harr, hcpu⟩
      · by_cases hji : j = i
        · exact hji ▸ hheld
        · have hother := hnone j (hstays j harr)
          rwa [hphases j hji] at hother

theorem Swapping.goes (h : Swapping target d slot s) {phase : LoadPhase}
    (hheld : ∀ current, held current (target i) phase = held current (target i) (s.phase i))
    (harrived : phase.Arrived ↔ (s.phase i).Arrived)
    (hloaded : ∀ currentMask, phase = .loaded currentMask → currentMask = (d.processInfo (slot i)).currentProcessMask)
    (hback : ∀ error, phase ≠ .returned error) (hall : phase = .released → ∀ j, (s.phase j).Arrived) :
    Swapping target d slot { s with phase := update s.phase i phase } := by
  have hsame : ∀ j, (∀ current, held current (target j) (update s.phase i phase j) =
      held current (target j) (s.phase j)) ∧ ((update s.phase i phase j).Arrived ↔ (s.phase j).Arrived) := by
    intro j
    by_cases hji : j = i
    · subst hji
      rw [update_self]
      exact ⟨hheld, harrived⟩
    · rw [update_of_ne hji]
      exact ⟨fun _ => rfl, Iff.rfl⟩
  refine ⟨h.initialized, h.sharing, h.stays, h.clean, fun j => ?_, fun j => ?_, h.stolen, fun j m hm => ?_,
    fun j e he => ?_, fun j hj k => ?_, fun cpu => ?_⟩
  · rw [h.current j, (hsame j).1]
  · rw [h.future j, (hsame j).1]
  · exact (Function.forall_update_iff s.phase fun j p => ∀ m, p = .loaded m →
      m = (d.processInfo (slot j)).currentProcessMask).mpr ⟨hloaded, fun j _ => h.loaded j⟩ j m hm
  · exact (Function.forall_update_iff s.phase fun _ p => ∀ e, p = .returned e → e = .success).mpr
      ⟨fun e he => absurd he (hback e), fun j _ => h.success j⟩ j e he
  · refine (hsame k).2.mpr ?_
    refine (Function.forall_update_iff s.phase fun _ p => p = .released ∨ p = .returned .success →
      (s.phase k).Arrived).mpr ⟨fun hp => ?_, fun j _ hp => h.barrier j hp k⟩ j hj
    exact hp.elim (fun hr => hall hr k) fun hr => absurd hr (hback _)
  · rw [h.free cpu]
    simp only [hsame]

omit [DecidableEq ι] in
theorem Swapping.covered (hstart : SwapStart caller target S d slot) (h : Swapping target d slot s)
    (hall : ∀ j, (s.phase j).Arrived) (hphase : s.phase i = .released) {cpu : ℕ} (hcpu : cpu ∈ target i) :
    cpu ∈ s.shdata.freeMask ∨ cpu ∈ (s.shdata.processInfo (slot i)).currentProcessMask := by
  rw [h.current i, hphase, held, h.free]
  by_cases hown : cpu ∈ (d.processInfo (slot i)).currentProcessMask
  · exact .inr (mem_inter.mpr ⟨hown, hcpu⟩)
  refine .inl ⟨?_, fun j _ hheld => ?_⟩
  · exact (hstart.covered i cpu hcpu).imp id fun ⟨j, hj⟩ => ⟨j, hall j, hj⟩
  · by_cases hji : j = i
    · subst hji
      rw [hphase, held] at hheld
      exact hown (mem_inter.mp hheld).1
    · have hj : cpu ∈ target j := by
        cases hph : s.phase j <;> simp_all [held, LoadPhase.Arrived]
      exact disjoint_left.mp (hstart.targetApart j i hji) hj hcpu

theorem LoadStep.swapping (hb : Procinfo.Bounded d) (hstart : SwapStart caller target S d slot)
    (h : Swapping target d slot s) (hstep : LoadStep caller target S s s') : Swapping target d slot s' := by
  have hinit : ∀ _ : ι, s.shdata.initialized = true := fun i =>
    h.initialized.trans (hb.initialized (hstart.registered i))
  have hlt : ∀ i, ∀ cpu ∈ (s.shdata.processInfo (slot i)).currentProcessMask, cpu < S.size := by
    intro i cpu hcpu
    rw [h.current i] at hcpu
    exact hstart.lt_size (held_subset hcpu)
  cases hstep with
  | read i hphase =>
    have hcurrent := h.current i
    rw [hphase, held] at hcurrent
    have hcall : exec S (caller i) s.shdata (.getprocessmask 0 []) =
        (s.shdata, { error := .success, mask := (d.processInfo (slot i)).currentProcessMask }) := by
      simp [exec, hinit i, getprocessmask, isSelf, hstart.own i, getprocessmaskSelf, h.clean i, hcurrent]
    rw [hcall]
    refine h.goes (fun _ => ?_) ?_ (fun m hm => ?_) (fun _ h => by cases h) (by intros; contradiction)
    · rw [hphase]
      rfl
    · rw [hphase]
      rfl
    · cases hm
      rfl
  | free i currentMask hphase =>
    have hcurrent := h.current i
    rw [hphase, held] at hcurrent
    obtain rfl := h.loaded i currentMask hphase
    have hkept : ∀ cpu ∈ (d.processInfo (slot i)).currentProcessMask ∩ target i, cpu < S.size ∧
        (cpu ∈ s.shdata.freeMask ∨ cpu ∈ (s.shdata.processInfo (slot i)).currentProcessMask) := fun cpu hcpu =>
      ⟨hstart.lt_size (mem_union_left _ (mem_inter.mp hcpu).1),
        .inr (hcurrent ▸ (mem_inter.mp hcpu).1)⟩
    obtain ⟨hok, hset⟩ := setprocessmask_free (S := S) (hstart.own i) (hinit i) h.sharing (h.clean i) (h.settled i) hkept
      (hlt i)
    rw [if_pos hok]
    have hnot : ¬(s.phase i).Arrived := by simp [hphase, LoadPhase.Arrived]
    refine h.sets hstart.slots hset rfl (.inl rfl) (by intros; contradiction) (fun harr => absurd harr hnot) fun _ cpu hcpu j hji harr => ?_
    rw [h.before hnot harr, held]
    exact fun hmem => disjoint_left.mp (hstart.apart i j hji.symm) hcpu (mem_inter.mp hmem).1
  | leave i hphase hall =>
    refine h.goes (fun _ => ?_) ?_ (fun _ h => by cases h) (fun _ h => by cases h) fun _ => hall
    · rw [hphase]
      rfl
    · rw [hphase]
      rfl
  | load i hphase =>
    have hall := h.barrier i (.inl hphase)
    have hcurrent := h.current i
    have hfree : ∀ cpu ∈ target i, cpu < S.size ∧
        (cpu ∈ s.shdata.freeMask ∨ cpu ∈ (s.shdata.processInfo (slot i)).currentProcessMask) := fun cpu hcpu =>
      ⟨hstart.lt_size (mem_union_right _ hcpu), h.covered hstart hall hphase hcpu⟩
    obtain ⟨hok, hset⟩ := setprocessmask_free (S := S) (hstart.own i) (hinit i) h.sharing (h.clean i) (h.settled i) hfree
      (hlt i)
    rw [if_pos hok]
    refine h.sets hstart.slots hset rfl (.inr rfl) (fun _ => hall) (fun _ => ?_) fun hnot => absurd (hall i) hnot
    rw [hphase, held]
    exact inter_subset_right

omit [DecidableEq ι] in
theorem SwapStart.swapping (hsettled : AllSettled d) (hstart : SwapStart caller target S d slot) :
    Swapping target d slot { shdata := d, phase := fun _ => .start } where
  initialized := rfl
  sharing := hstart.sharing
  stays _ _ := rfl
  clean := hstart.clean
  current _ := rfl
  future i := (hsettled (slot i) (hstart.clean i)).symm
  stolen _ := Finset.Subset.refl _
  loaded _ _ := nofun
  success _ _ := nofun
  barrier _ := nofun
  free cpu := by simp [LoadPhase.Arrived]

/-- **A swap of masks in two phases.** From every reachable state in which the processes are not dirty and their masks
and targets are apart, whatever the order of the calls: no call fails, no process becomes dirty or loses a CPU, and
once all processes are back each has its target, and what is left is free. -/
theorem mask_swap {adm : Procinfo.Caller → Procinfo.Shdata → Call → Prop} (hd : Procinfo.Reachable S adm d)
    (hstart : SwapStart caller target S d slot)
    (hrun : Lib.Run (LoadStep caller target S) { shdata := d, phase := fun _ => .start } s) :
    (∀ i error, s.phase i = .returned error → error = .success) ∧
    (∀ q, (s.shdata.processInfo q).dirty = (d.processInfo q).dirty ∧
      (s.shdata.processInfo q).stolenCpus ⊆ (d.processInfo q).stolenCpus) ∧
    (∀ q, (∀ i, slot i ≠ q) → s.shdata.processInfo q = d.processInfo q) ∧
    ((∀ i, s.phase i = .returned .success) →
      (∀ i, (s.shdata.processInfo (slot i)).currentProcessMask = target i ∧
        (s.shdata.processInfo (slot i)).futureProcessMask = target i) ∧
      ∀ cpu, cpu ∈ s.shdata.freeMask ↔
        (cpu ∈ d.freeMask ∨ ∃ i, cpu ∈ (d.processInfo (slot i)).currentProcessMask) ∧ ∀ i, cpu ∉ target i) := by
  have hsettled := reachable_settled hd
  have hb := reachable_bounded hd
  have h : Swapping target d slot s := Lib.Run.invariant hrun (hstart.swapping hsettled) fun _ _ h hstep =>
    hstep.swapping hb hstart h
  refine ⟨h.success, fun q => ?_, h.stays, fun hback => ⟨fun i => ?_, fun cpu => ?_⟩⟩
  · by_cases hq : ∃ i, slot i = q
    · obtain ⟨i, rfl⟩ := hq
      exact ⟨(h.clean i).trans (hstart.clean i).symm, h.stolen i⟩
    · rw [h.stays q fun i hi => hq ⟨i, hi⟩]
      exact ⟨rfl, Finset.Subset.refl _⟩
  · rw [h.current i, h.future i, hback i]
    exact ⟨rfl, rfl⟩
  · rw [h.free cpu]
    simp [hback, LoadPhase.Arrived, held]

/-! ## The end of a swap -/

/-- The steps that a process still has to take. -/
def LoadPhase.rank : LoadPhase → ℕ
  | .start => 4
  | .loaded _ => 3
  | .waiting => 2
  | .released => 1
  | .returned _ => 0

theorem rank_lt [Fintype ι] (phases : ι → LoadPhase) {phase : LoadPhase} (h : phase.rank < (phases i).rank) :
    ∑ j, (update phases i phase j).rank < ∑ j, (phases j).rank := by
  refine sum_lt_sum (fun j _ => ?_) ⟨i, mem_univ i, by rwa [update_self]⟩
  by_cases hji : j = i
  · subst hji
    rw [update_self]
    exact h.le
  · rw [update_of_ne hji]

theorem Swapping.step [Fintype ι] (S : System) (caller : ι → Procinfo.Caller) (h : Swapping target d slot s)
    (hnot : ¬∀ i, s.phase i = .returned .success) :
    ∃ s', LoadStep caller target S s s' ∧ ∑ i, (s'.phase i).rank < ∑ i, (s.phase i).rank := by
  have hback : ∀ i error, s.phase i = .returned error → s.phase i = .returned .success := fun i error he => by
    rw [he, h.success i error he]
  by_cases hall : ∀ j, (s.phase j).Arrived
  · obtain ⟨i, hi⟩ := not_forall.mp hnot
    cases hphase : s.phase i with
    | start => exact absurd (hall i) (by simp [hphase, LoadPhase.Arrived])
    | loaded currentMask => exact absurd (hall i) (by simp [hphase, LoadPhase.Arrived])
    | waiting => exact ⟨_, .leave i hphase hall, rank_lt s.phase (by simp [hphase, LoadPhase.rank])⟩
    | released =>
      refine ⟨_, .load i hphase, rank_lt s.phase ?_⟩
      rw [hphase]
      split <;> decide
    | returned error => exact absurd (hback i error hphase) hi
  · obtain ⟨i, hi⟩ := not_forall.mp hall
    cases hphase : s.phase i with
    | start => exact ⟨_, .read i hphase, rank_lt s.phase (by simp [hphase, LoadPhase.rank])⟩
    | loaded currentMask =>
      refine ⟨_, .free i currentMask hphase, rank_lt s.phase ?_⟩
      rw [hphase]
      split <;> simp [LoadPhase.rank]
    | waiting => exact absurd (by rw [hphase]; trivial) hi
    | released => exact absurd (by rw [hphase]; trivial) hi
    | returned error =>
      rw [hback i error hphase] at hi
      exact absurd nofun hi

theorem swap_completes [Fintype ι] {adm : Procinfo.Caller → Procinfo.Shdata → Call → Prop}
    (hd : Procinfo.Reachable S adm d) (hstart : SwapStart caller target S d slot)
    (hrun : Lib.Run (LoadStep caller target S) { shdata := d, phase := fun _ => .start } s) :
    ∃ s', Lib.Run (LoadStep caller target S) s s' ∧ ∀ i, s'.phase i = .returned .success := by
  have hb := reachable_bounded hd
  have h : Swapping target d slot s := Lib.Run.invariant hrun (hstart.swapping (reachable_settled hd))
    fun _ _ h hstep => hstep.swapping hb hstart h
  -- by induction on the steps that are left
  induction hn : ∑ i, (s.phase i).rank using Nat.strongRecOn generalizing s with
  | _ n ih =>
    by_cases hback : ∀ i, s.phase i = .returned .success
    · exact ⟨s, .refl, hback⟩
    · obtain ⟨s1, hstep, hlt⟩ := h.step S caller hback
      obtain ⟨s', hrest, hdone⟩ := ih _ (hn ▸ hlt) (hrun.tail hstep) (hstep.swapping hb hstart h) rfl
      exact ⟨s', .head hstep hrest, hdone⟩

/-- Two processes that swap their CPUs, and one of them gets a free one. -/
theorem mask_swap_two : ∃ d, Procinfo.Reachable threeCpus (fun _ _ _ => True) d ∧
    ∃ s : Loading (Fin 2), (∀ i, s.phase i = .returned .success) ∧
      (s.shdata.processInfo 0).currentProcessMask = {1, 2} ∧ (s.shdata.processInfo 1).currentProcessMask = {0} := by
  let d := replay threeCpus [(Procinfo.caller, .init 1 0 {0} false), (Procinfo.caller, .init 2 0 {1} false)] {}
  let callers : Fin 2 → Procinfo.Caller := fun i => { myPinfo := some i, maxProcesses := 3 }
  let targets : Fin 2 → CpuSet := fun i => if i = 0 then {1, 2} else {0}
  have hd : Procinfo.Reachable threeCpus (fun _ _ _ => True) d := replay_run fun _ _ _ => trivial
  have hstart : SwapStart callers targets threeCpus d (fun i => i) :=
    { sharing := by decide
      slots := Fin.val_injective
      own := fun _ => rfl
      registered := by decide
      clean := by decide
      apart := by decide
      system := by decide
      targetApart := by decide
      covered := by decide }
  obtain ⟨s, hrun, hback⟩ := swap_completes hd hstart .refl
  obtain ⟨hmasks, -⟩ := (mask_swap hd hstart hrun).2.2.2 hback
  exact ⟨d, hd, s, hback, (hmasks 0).1, (hmasks 1).1⟩

end Dlb.Mngo

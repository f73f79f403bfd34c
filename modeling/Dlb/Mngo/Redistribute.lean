import Mathlib.Algebra.BigOperators.Ring.Finset
import Mathlib.Algebra.Order.BigOperators.Group.Finset
import Dlb.Lib.Run
import Dlb.Support.MaskUtils

/-!
# Redistribution of cores among the MNGO managers

`shmem_mngo_drom__redistribute`: a manager that gives releases cores into the shared pool, all managers meet at a
barrier, and a manager that receives takes cores from the pool. The sections of different managers run in any order.

* one release and one acquire move whole cores (`releaseLoop_spec`, `acquireLoop_spec`);
* along every run the pool and the masks share out the CPUs of the start, and the pool has the cores that are still
  to be taken (`step_good`);
* nobody finds the pool empty, and in the end every manager has its cores (`redistribute_conserves`).
-/

namespace Dlb.Mngo

open Finset Function

/-! ## The two loops -/

/-- The release loop: from `self_mask` into the local `mask_freed`. Running out of CPUs is fatal (`none`). -/
def releaseLoop (S : System) : ℕ → (self freed : CpuSet) → Option (CpuSet × CpuSet)
  | 0, self, freed => some (self, freed)
  | n + 1, self, freed => do
    let releaseCpu ← muGetLastCpu S self
    let core ← muGetCoreMask S releaseCpu
    let maskReleaseCpu := muAnd S ∅ self core
    releaseLoop S n (muSubtract S self self maskReleaseCpu) (muOr S freed freed maskReleaseCpu)

/-- What the acquire loop leaves: the pool, `self_mask`, and whether it found the pool empty. -/
structure Acquired where
  free : CpuSet
  self : CpuSet
  warning : Bool

/-- The acquire loop: from the pool into `self_mask`. It stops with a warning when the pool is empty. -/
def acquireLoop (S : System) : ℕ → (free self : CpuSet) → Option Acquired
  | 0, free, self => some ⟨free, self, false⟩
  | n + 1, free, self =>
    match muGetLastCpu S free with
    | none => some ⟨free, self, true⟩
    | some cpuToAcquire => do
      let core ← muGetCoreMask S cpuToAcquire
      let maskCoreToAcquire := muAnd S ∅ free core
      acquireLoop S n (muSubtract S free free maskCoreToAcquire) (muOr S self self maskCoreToAcquire)

/-! ## The system of managers -/

/-- Where a manager is: before its release, at or past the barrier, or back from the call. -/
inductive Phase where
  | start | released | done
deriving DecidableEq, Repr

/-- The pool `available_cpus`, and of each manager its phase and its `self_mask`. -/
structure State (ι : Type) where
  available : CpuSet
  phase : ι → Phase
  self : ι → CpuSet
  /-- somebody ran out of CPUs to release -/
  fatal : Bool := false
  /-- somebody found the pool empty -/
  warning : Bool := false

section System

variable {ι : Type} [DecidableEq ι]

/-- The part of manager `i` before the barrier. -/
def release (S : System) (cpuDelta : ι → ℤ) (s : State ι) (i : ι) : State ι :=
  if cpuDelta i < 0 then
    match releaseLoop S (-cpuDelta i).toNat (s.self i) ∅ with
    | none => { s with fatal := true }
    | some (self, freed) =>
      { s with available := muOr S s.available s.available freed, self := update s.self i self,
               phase := update s.phase i .released }
  else { s with phase := update s.phase i .released }

/-- The part of manager `i` after the barrier. -/
def acquire (S : System) (cpuDelta : ι → ℤ) (s : State ι) (i : ι) : State ι :=
  if 0 < cpuDelta i then
    match acquireLoop S (cpuDelta i).toNat s.available (s.self i) with
    | none => { s with fatal := true }
    | some r =>
      { s with available := r.free, self := update s.self i r.self, warning := s.warning || r.warning,
               phase := update s.phase i .done }
  else { s with phase := update s.phase i .done }

/-- One section of one manager. The barrier lets nobody through before everybody has arrived. -/
inductive Step (S : System) (cpuDelta : ι → ℤ) : State ι → State ι → Prop
  | release {s : State ι} (i : ι) : s.phase i = .start → Step S cpuDelta s (release S cpuDelta s i)
  | acquire {s : State ι} (i : ι) : s.phase i = .released → (∀ j, s.phase j ≠ .start) →
      Step S cpuDelta s (acquire S cpuDelta s i)

/-- Every manager has read its process mask; the pool is empty. -/
def initial (mask : ι → CpuSet) : State ι := { available := ∅, phase := fun _ => .start, self := mask }

end System

/-! ## Taking cores out of a mask -/

section Cores

variable {S : System} {mask mask1 mask2 core : CpuSet}

/-- What taking `n` cores out of `mask` leaves: `rest` and `taken`. -/
structure Taken (S : System) (n : ℕ) (mask rest taken : CpuSet) : Prop where
  restWhole : WholeCores S rest
  takenWhole : WholeCores S taken
  union : rest ∪ taken = mask
  disjoint : Disjoint rest taken
  card : (coresIn S taken).card = n

theorem last_core (h : WholeCores S mask) (hpos : 0 < (coresIn S mask).card) :
    ∃ c core, muGetLastCpu S mask = some c ∧ muGetCoreMask S c = some core ∧ core ∈ S.cores ∧ core.Nonempty ∧
      core ⊆ mask ∧ muAnd S ∅ mask core = core ∧ muSubtract S mask mask core = mask \ core := by
  obtain ⟨c, hc, hlast⟩ := muGetLastCpu_some h.fits (h.card_pos.mp hpos)
  obtain ⟨core, hk, hck, hsub⟩ := h c hc
  refine ⟨c, core, hlast, muGetCoreMask_of_mem hk hck, hk, ⟨c, hck⟩, hsub, ?_, muSubtract_of_fits h.fits h.fits⟩
  rw [muAnd_of_fits wholeCores_empty.fits h.fits]
  exact inter_eq_right.mpr hsub

theorem Taken.cons {n : ℕ} {rest taken : CpuSet} (hk : core ∈ S.cores) (hne : core.Nonempty) (hsub : core ⊆ mask)
    (h : Taken S n (mask \ core) rest taken) : Taken S (n + 1) mask rest (core ∪ taken) := by
  have hdisj : Disjoint core (rest ∪ taken) := by rw [h.union]; exact disjoint_sdiff
  rw [disjoint_union_right] at hdisj
  refine ⟨h.restWhole, (wholeCores_core hk).union h.takenWhole, ?_, ?_, ?_⟩
  · rw [← union_assoc, union_comm rest core, union_assoc, h.union]
    exact union_sdiff_of_subset hsub
  · exact disjoint_union_right.mpr ⟨hdisj.1.symm, h.disjoint⟩
  · rw [card_coresIn_union (wholeCores_core hk) h.takenWhole hdisj.2, card_coresIn_core hk hne, h.card, Nat.add_comm]

theorem card_sdiff_core (h : WholeCores S mask) (hk : core ∈ S.cores) (hne : core.Nonempty) (hsub : core ⊆ mask) :
    (coresIn S mask).card = (coresIn S (mask \ core)).card + 1 := by
  have := card_coresIn_union (h.sdiff hk) (wholeCores_core hk) sdiff_disjoint
  rwa [sdiff_union_of_subset hsub, card_coresIn_core hk hne] at this

theorem releaseLoop_spec {n : ℕ} {self freed : CpuSet} (h : WholeCores S self) (hf : WholeCores S freed)
    (hn : n ≤ (coresIn S self).card) :
    ∃ rest taken, releaseLoop S n self freed = some (rest, freed ∪ taken) ∧ Taken S n self rest taken := by
  induction n generalizing self freed with
  | zero =>
    have hempty : coresIn S ∅ = ∅ := not_nonempty_iff_eq_empty.mp fun ⟨k, hk⟩ => by
      obtain ⟨-, hne, hsub⟩ := mem_coresIn.mp hk
      exact not_nonempty_empty (hne.mono hsub)
    exact ⟨self, ∅, by simp [releaseLoop], h, wholeCores_empty, union_empty _, disjoint_empty_right _,
      by simp [hempty]⟩
  | succ n ih =>
    obtain ⟨c, core, hlast, hmask, hk, hne, hsub, hand, hdiff⟩ := last_core h (by omega)
    have hcard := card_sdiff_core h hk hne hsub
    have hor : muOr S freed freed core = freed ∪ core := muOr_of_fits hf.fits hf.fits (wholeCores_core hk).fits
    obtain ⟨rest, taken, he, ht⟩ := ih (h.sdiff hk) (hf.union (wholeCores_core hk)) (by omega)
    refine ⟨rest, core ∪ taken, ?_, ht.cons hk hne hsub⟩
    rw [← union_assoc, ← he]
    simp only [releaseLoop, hlast, hmask, hand, hdiff, hor, Option.bind_eq_bind, Option.bind_some]

theorem acquireLoop_spec {n : ℕ} {free self : CpuSet} (h : WholeCores S free) (hs : WholeCores S self)
    (hn : n ≤ (coresIn S free).card) :
    ∃ rest taken, acquireLoop S n free self = some ⟨rest, self ∪ taken, false⟩ ∧ Taken S n free rest taken := by
  induction n generalizing free self with
  | zero =>
    obtain ⟨rest, taken, he, ht⟩ := releaseLoop_spec (n := 0) h wholeCores_empty (Nat.zero_le _)
    simp only [releaseLoop, Option.some.injEq, Prod.mk.injEq] at he
    obtain ⟨rfl, htaken⟩ := he
    have : taken = ∅ := by simpa using htaken.symm
    exact ⟨free, taken, by simp [acquireLoop, this], ht⟩
  | succ n ih =>
    obtain ⟨c, core, hlast, hmask, hk, hne, hsub, hand, hdiff⟩ := last_core h (by omega)
    have hcard := card_sdiff_core h hk hne hsub
    have hor : muOr S self self core = self ∪ core := muOr_of_fits hs.fits hs.fits (wholeCores_core hk).fits
    obtain ⟨rest, taken, he, ht⟩ := ih (h.sdiff hk) (hs.union (wholeCores_core hk)) (by omega)
    refine ⟨rest, core ∪ taken, ?_, ht.cons hk hne hsub⟩
    rw [← union_assoc, ← he]
    simp only [acquireLoop, hlast, hmask, hand, hdiff, hor, Option.bind_eq_bind, Option.bind_some]

end Cores

/-! ## All interleavings -/

section Runs

variable {ι : Type} [DecidableEq ι] [Fintype ι] {S : System} {cpuDelta : ι → ℤ} {mask : ι → CpuSet} {s : State ι}

/-- By how many cores the mask of a manager differs from its first one. -/
def moved (delta : ℤ) : Phase → ℤ
  | .start => 0
  | .released => min delta 0
  | .done => delta

/-- The invariant: the masks and the pool share out the CPUs of the start, and the pool has what the managers gave and
did not take yet. -/
structure Good (S : System) (cpuDelta : ι → ℤ) (mask : ι → CpuSet) (s : State ι) : Prop where
  fatal : s.fatal = false
  warning : s.warning = false
  whole : ∀ i, WholeCores S (s.self i)
  pool : WholeCores S s.available
  disjoint : ∀ i j, i ≠ j → Disjoint (s.self i) (s.self j)
  apart : ∀ i, Disjoint (s.self i) s.available
  union : s.available ∪ univ.biUnion s.self = univ.biUnion mask
  cores : ∀ i, ((coresIn S (s.self i)).card : ℤ) = (coresIn S (mask i)).card + moved (cpuDelta i) (s.phase i)
  count : ((coresIn S s.available).card : ℤ) = -∑ i, moved (cpuDelta i) (s.phase i)

omit [DecidableEq ι] in
theorem initial_good (hmask : ∀ i, WholeCores S (mask i)) (hdisj : ∀ i j, i ≠ j → Disjoint (mask i) (mask j)) :
    Good S cpuDelta mask (initial mask) where
  fatal := rfl
  warning := rfl
  whole := hmask
  pool := wholeCores_empty
  disjoint := hdisj
  apart _ := disjoint_empty_right _
  union := empty_union _
  cores i := by simp [initial, moved]
  count := by
    have h : ¬0 < (coresIn S ∅).card := fun h => not_nonempty_empty (wholeCores_empty.card_pos.mp h)
    simp only [initial, moved, sum_const_zero, neg_zero]
    omega

theorem Good.move {self available : CpuSet} {p : Phase} (g : Good S cpuDelta mask s) (i : ι)
    (hself : WholeCores S self) (havail : WholeCores S available) (hdisj : Disjoint self available)
    (hunion : self ∪ available = s.self i ∪ s.available)
    (hcores : ((coresIn S self).card : ℤ) + moved (cpuDelta i) (s.phase i) =
      (coresIn S (s.self i)).card + moved (cpuDelta i) p) :
    Good S cpuDelta mask { s with available := available, self := update s.self i self,
                                  phase := update s.phase i p } := by
  have hsub : ∀ {c}, c ∈ self ∨ c ∈ available → c ∈ s.self i ∨ c ∈ s.available := fun {c} hc => by
    rw [← mem_union, ← hunion]; exact mem_union.mpr hc
  have hother : ∀ j, j ≠ i → ∀ c, c ∈ s.self j → c ∉ self ∧ c ∉ available := by
    intro j hj c hc
    have hn : ¬(c ∈ s.self i ∨ c ∈ s.available) := by
      rintro (h | h)
      · exact disjoint_left.mp (g.disjoint j i hj) hc h
      · exact disjoint_left.mp (g.apart j) hc h
    exact ⟨fun h => hn (hsub (Or.inl h)), fun h => hn (hsub (Or.inr h))⟩
  have hcard : (coresIn S self).card + (coresIn S available).card =
      (coresIn S (s.self i)).card + (coresIn S s.available).card := by
    rw [← card_coresIn_union hself havail hdisj, ← card_coresIn_union (g.whole i) g.pool (g.apart i), hunion]
  have hupd : ∀ j, update s.self i self j = if j = i then self else s.self j := fun j => by
    by_cases hj : j = i <;> simp [hj]
  refine ⟨g.fatal, g.warning, fun j => ?_, havail, fun j k hjk => ?_, fun j => ?_, ?_, fun j => ?_, ?_⟩
  · dsimp only
    rw [hupd]
    split
    · exact hself
    · exact g.whole j
  · dsimp only
    rw [hupd, hupd]
    split
    · rename_i hj
      rw [if_neg (fun hk => hjk (hj.trans hk.symm))]
      exact disjoint_right.mpr fun c hc =>
        (hother k (fun hk => hjk (hj.trans hk.symm)) c hc).1
    · rename_i hj
      split
      · exact disjoint_left.mpr fun c hc => (hother j hj c hc).1
      · exact g.disjoint j k hjk
  · dsimp only
    rw [hupd]
    split
    · exact hdisj
    · rename_i hj
      exact disjoint_left.mpr fun c hc => (hother j hj c hc).2
  · rw [← g.union]
    ext c
    simp only [mem_union, mem_biUnion, mem_univ, true_and, hupd]
    have hc : (c ∈ self ∨ c ∈ available) ↔ (c ∈ s.self i ∨ c ∈ s.available) := by
      rw [← mem_union, ← mem_union, hunion]
    constructor
    · rintro (h | ⟨j, hj⟩)
      · exact (hc.mp (Or.inr h)).elim (fun h => Or.inr ⟨i, h⟩) Or.inl
      · split at hj
        · exact (hc.mp (Or.inl hj)).elim (fun h => Or.inr ⟨i, h⟩) Or.inl
        · exact Or.inr ⟨j, hj⟩
    · rintro (h | ⟨j, hj⟩)
      · exact (hc.mpr (Or.inr h)).elim (fun h => Or.inr ⟨i, by rwa [if_pos rfl]⟩) Or.inl
      · by_cases hji : j = i
        · subst hji
          exact (hc.mpr (Or.inl hj)).elim (fun h => Or.inr ⟨j, by rwa [if_pos rfl]⟩) Or.inl
        · exact Or.inr ⟨j, by rwa [if_neg hji]⟩
  · dsimp only
    by_cases hj : j = i
    · subst hj
      rw [update_self, update_self]
      have := g.cores j
      omega
    · rw [update_of_ne hj, update_of_ne hj]
      exact g.cores j
  · have hcount := g.count
    have hsum : ∑ j, moved (cpuDelta j) (update s.phase i p j) + moved (cpuDelta i) (s.phase i) =
        ∑ j, moved (cpuDelta j) (s.phase j) + moved (cpuDelta i) p := by
      rw [← add_sum_erase _ _ (mem_univ i),
        ← add_sum_erase _ (fun j => moved (cpuDelta j) (s.phase j)) (mem_univ i), update_self]
      have : ∑ j ∈ univ.erase i, moved (cpuDelta j) (update s.phase i p j) =
          ∑ j ∈ univ.erase i, moved (cpuDelta j) (s.phase j) :=
        sum_congr rfl fun j hj => by rw [update_of_ne (ne_of_mem_erase hj)]
      omega
    dsimp only
    omega

theorem release_good (g : Good S cpuDelta mask s) {i : ι} (hi : s.phase i = .start)
    (hown : cpuDelta i < 0 → -cpuDelta i < (coresIn S (mask i)).card) : Good S cpuDelta mask (release S cpuDelta s i) := by
  have hc := g.cores i
  rw [hi] at hc
  unfold release
  split
  · rename_i hneg
    have := hown hneg
    obtain ⟨rest, taken, he, ht⟩ := releaseLoop_spec (n := (-cpuDelta i).toNat) (g.whole i) wholeCores_empty
      (by simp only [moved] at hc; omega)
    have hpool : muOr S s.available s.available taken = s.available ∪ taken :=
      muOr_of_fits g.pool.fits g.pool.fits ht.takenWhole.fits
    have htaken : taken ⊆ s.self i := ht.union ▸ subset_union_right
    have hrest : rest ⊆ s.self i := ht.union ▸ subset_union_left
    rw [he]
    simp only [empty_union, hpool]
    refine g.move i ht.restWhole (g.pool.union ht.takenWhole) ?_ ?_ ?_
    · exact disjoint_union_right.mpr ⟨(g.apart i).mono_left hrest, ht.disjoint⟩
    · rw [union_comm s.available, ← union_assoc, ht.union]
    · have hsplit := card_coresIn_union ht.restWhole ht.takenWhole ht.disjoint
      rw [ht.union, ht.card] at hsplit
      rw [hi]
      simp only [moved]
      omega
  · rename_i hneg
    have h := g.move (p := .released) i (g.whole i) g.pool (g.apart i) rfl
      (by rw [hi]; simp only [moved]; omega)
    rwa [update_eq_self] at h

omit [DecidableEq ι] in
theorem Good.enough (g : Good S cpuDelta mask s) (hsum : ∑ i, cpuDelta i = 0) (hbar : ∀ j, s.phase j ≠ .start) {i : ι}
    (hi : s.phase i = .released) : cpuDelta i ≤ (coresIn S s.available).card := by
  have hle : ∀ j, 0 ≤ cpuDelta j - moved (cpuDelta j) (s.phase j) := by
    intro j
    cases hj : s.phase j with
    | start => exact absurd hj (hbar j)
    | released => simp only [moved]; omega
    | done => simp [moved]
  have hone := single_le_sum (fun j _ => hle j) (mem_univ i)
  rw [sum_sub_distrib, hsum] at hone
  have hcount := g.count
  have hmin : moved (cpuDelta i) .released = min (cpuDelta i) 0 := rfl
  rw [hi, hmin] at hone
  omega

theorem acquire_good (g : Good S cpuDelta mask s) (hsum : ∑ i, cpuDelta i = 0) (hbar : ∀ j, s.phase j ≠ .start) {i : ι}
    (hi : s.phase i = .released) : Good S cpuDelta mask (acquire S cpuDelta s i) := by
  have henough := g.enough hsum hbar hi
  unfold acquire
  split
  · rename_i hpos
    obtain ⟨rest, taken, he, ht⟩ := acquireLoop_spec (n := (cpuDelta i).toNat) g.pool (g.whole i) (by omega)
    have htaken : taken ⊆ s.available := ht.union ▸ subset_union_right
    have hrest : rest ⊆ s.available := ht.union ▸ subset_union_left
    have hdisj : Disjoint (s.self i) taken := (g.apart i).mono_right htaken
    rw [he]
    have h := g.move (p := .done) i ((g.whole i).union ht.takenWhole) ht.restWhole ?_ ?_ ?_
    · simpa only [g.warning, Bool.or_false] using h
    · exact disjoint_union_left.mpr ⟨(g.apart i).mono_right hrest, ht.disjoint.symm⟩
    · rw [union_assoc, union_comm taken, ht.union]
    · rw [card_coresIn_union (g.whole i) ht.takenWhole hdisj, ht.card, hi]
      simp only [moved]
      omega
  · rename_i hpos
    have h := g.move (p := .done) i (g.whole i) g.pool (g.apart i) rfl
      (by rw [hi]; simp only [moved]; omega)
    rwa [update_eq_self] at h

/-- **Redistribution conserves cores.** The managers have disjoint masks of whole cores, the changes add up to zero, and
whoever gives owns more cores than it gives. In every order of their sections nobody runs out of CPUs to release or
finds the pool empty, and nobody is stuck; when all are back, the pool is empty, the masks are disjoint, made of whole
cores and together what they were, and each has changed by its number of cores. -/
theorem redistribute_conserves (hmask : ∀ i, WholeCores S (mask i))
    (hdisj : ∀ i j, i ≠ j → Disjoint (mask i) (mask j)) (hsum : ∑ i, cpuDelta i = 0)
    (hown : ∀ i, cpuDelta i < 0 → -cpuDelta i < (coresIn S (mask i)).card)
    (h : Lib.Run (Step S cpuDelta) (initial mask) s) :
    s.fatal = false ∧ s.warning = false ∧ ((∃ i, s.phase i ≠ .done) → ∃ s', Step S cpuDelta s s') ∧
    ((∀ i, s.phase i = .done) → s.available = ∅ ∧ (∀ i j, i ≠ j → Disjoint (s.self i) (s.self j)) ∧
      univ.biUnion s.self = univ.biUnion mask ∧
      ∀ i, WholeCores S (s.self i) ∧ ((coresIn S (s.self i)).card : ℤ) = (coresIn S (mask i)).card + cpuDelta i) := by
  have g : Good S cpuDelta mask s := by
    refine Lib.Run.invariant h (initial_good hmask hdisj) fun a b ga hstep => ?_
    cases hstep with
    | release i hi => exact release_good ga hi (hown i)
    | acquire i hi hbar => exact acquire_good ga hsum hbar hi
  refine ⟨g.fatal, g.warning, fun ⟨i, hi⟩ => ?_, fun hdone => ?_⟩
  · by_cases hstart : ∃ j, s.phase j = .start
    · obtain ⟨j, hj⟩ := hstart
      exact ⟨_, .release j hj⟩
    · have hbar : ∀ j, s.phase j ≠ .start := fun j hj => hstart ⟨j, hj⟩
      cases hp : s.phase i with
      | start => exact absurd hp (hbar i)
      | released => exact ⟨_, .acquire i hp hbar⟩
      | done => exact absurd hp hi
  · have hempty : s.available = ∅ := by
      by_contra hne
      have hpos := g.pool.card_pos.mpr (nonempty_iff_ne_empty.mpr hne)
      have hcount := g.count
      simp only [hdone, moved, hsum] at hcount
      omega
    refine ⟨hempty, g.disjoint, ?_, fun i => ⟨g.whole i, ?_⟩⟩
    · rw [← g.union, hempty, empty_union]
    · have := g.cores i
      rwa [hdone i] at this

end Runs

/-- Three cores of two CPUs, the siblings three ids apart. -/
def threeCores : System where
  sysMask := {0, 1, 2, 3, 4, 5}
  cores := [{0, 3}, {1, 4}, {2, 5}]
  disjoint := by decide
  covered := by decide

/-- Two managers on three cores: `false` gives a core to `true`. -/
theorem redistribute_conserves_threeCores :
    let mask : Bool → CpuSet := fun i => if i then {2, 5} else {0, 1, 3, 4}
    let cpuDelta : Bool → ℤ := fun i => if i then 1 else -1
    let s := acquire threeCores cpuDelta (acquire threeCores cpuDelta (release threeCores cpuDelta
      (release threeCores cpuDelta (initial mask) false) true) true) false
    s.available = ∅ ∧ ((coresIn threeCores (s.self true)).card : ℤ) = (coresIn threeCores (mask true)).card + 1 := by
  intro mask cpuDelta s
  have hrun : Lib.Run (Step threeCores cpuDelta) (initial mask) s :=
    .tail (.tail (.tail (.tail .refl (.release false (by decide))) (.release true (by decide)))
      (.acquire true (by decide) (by decide))) (.acquire false (by decide) (by decide))
  have h := redistribute_conserves (S := threeCores) (by unfold WholeCores; decide) (by decide) (by decide) (by decide)
    hrun
  obtain ⟨hempty, -, -, hcores⟩ := h.2.2.2 (by decide)
  exact ⟨hempty, (hcores true).2⟩

end Dlb.Mngo

import Dlb.Cpuinfo.Racing

/-!
# The shortcut of `last_borrow`

A borrow, and an acquire by number, returns early if `last_borrow` is newer than `timestamp_cpu_lent`. The one time is
stored after any attempt that did nothing, whatever CPUs it asked for, and the other one by the operations that lend, but
not by those that return. So the shortcut may hide a CPU that the call could take (`other_mask_hidden`). It hides none as
long as no attempt passes over a CPU that the process could take, and no CPU becomes takeable without a new time
(`shortcut_faithful`).
-/

namespace Dlb.Cpuinfo

open List Function

variable (S : System)

/-! ## What a process can take -/

/-- `borrow_cpu` gives the CPU to the process. -/
def Takeable (pid : Pid) (d : Shdata) (cpuid : ℕ) : Prop :=
  let info := d.nodeInfo cpuid
  info.state ≠ .disabled ∧ info.guest = 0 ∧ coreIsEligible S d pid cpuid = true ∧ (info.owner = pid ∨ info.state = .lent)

instance (pid : Pid) (d : Shdata) (cpuid : ℕ) : Decidable (Takeable S pid d cpuid) :=
  inferInstanceAs (Decidable (_ ∧ _ ∧ _ ∧ _))

/-- The CPUs that the loops come to for a CPU of the array: with SMT those of its core. -/
def reached (d : Shdata) (cpuid : ℕ) : List ℕ := if d.hwHasSmt then coreCpus S (muGetCoreId S cpuid) else [cpuid]

/-- For the CPUs `W`, the loops come to none that the process can take. -/
def NothingIn (W : Set ℕ) (pid : Pid) (d : Shdata) : Prop := ∀ c ∈ W, ∀ e ∈ reached S d c, ¬Takeable S pid d e

/-- A CPU keeps the rest of its core from the process. -/
def CpuInfo.Blocks (pid : Pid) (i : CpuInfo) : Prop :=
  (i.guest ≠ pid ∧ i.guest ≠ 0) ∨ (i.state = .busy ∧ i.owner ≠ pid)

variable {S} {p q : Pid} {d d1 : Shdata} {c e : ℕ} {i : CpuInfo} {W : Set ℕ}

section Take

theorem borrowCpu_done : done (borrowCpu S p d c).2 = true ↔ Takeable S p d c := by
  unfold borrowCpu Takeable
  dsimp only
  split
  · rename_i hs
    exact iff_of_false Bool.false_ne_true fun h => h.1 hs
  rename_i hs
  split
  · rename_i hg
    split
    · rename_i ho
      exact iff_of_true rfl ⟨hs, hg.1, hg.2, .inl ho⟩
    rename_i ho
    split
    · rename_i hl
      exact iff_of_true rfl ⟨hs, hg.1, hg.2, .inr hl⟩
    · rename_i hl
      exact iff_of_false Bool.false_ne_true fun h => h.2.2.2.elim ho hl
  · rename_i hg
    exact iff_of_false Bool.false_ne_true fun h => hg ⟨h.2.1, h.2.2.1⟩

theorem borrowCpu_stuck (h : done (borrowCpu S p d c).2 = false) : (borrowCpu S p d c).1 = d := by
  unfold borrowCpu at h ⊢
  dsimp only at h ⊢
  split_ifs at h ⊢
  · rfl
  · cases h
  · cases h
  · rfl
  · rfl

theorem acquireCpu_done (hp0 : p ≠ 0) (h : Takeable S p d c) : done (acquireCpu S p d c).2 = true := by
  obtain ⟨-, hg, hel, htake⟩ := h
  unfold acquireCpu
  rw [if_neg fun h => hp0 (h.symm.trans hg)]
  split
  · rfl
  · rename_i ho
    rw [if_pos ⟨hg, htake.resolve_left ho, hel⟩]
    rfl

theorem acquireCpu_stuck (h : done (acquireCpu S p d c).2 = false) : (acquireCpu S p d c).1 = d := by
  unfold acquireCpu at h ⊢
  dsimp only at h ⊢
  split
  · rfl
  rename_i hg
  rw [if_neg hg] at h
  split
  · rename_i ho
    rw [if_pos ho] at h
    split at h
    · cases h
    · cases h
  rename_i ho
  rw [if_neg ho] at h
  split
  · rename_i hav
    rw [if_pos hav] at h
    cases h
  rename_i hav
  rw [if_neg hav] at h
  split
  · rename_i hq
    rw [if_pos hq] at h
    split at h
    · cases h
    · rfl
  split
  · rfl
  · rfl

/-! ## The loops over a core -/

theorem coreCpus_coreId (c : ℕ) : coreCpus S (muGetCoreId S c) = muCpus S (coreMask S c) := by
  have hmask : (muGetCoreId S c).bind (muGetCoreMaskByCoreid S) = muGetCoreMask S c := by
    unfold muGetCoreId muGetCoreMask
    split
    · rfl
    · exact find?_eq_bind_findIdx?_getElem?.symm
  unfold coreCpus coreMask
  rw [hmask]

theorem mem_reached_smt (hsmt : d.hwHasSmt = true) (he : e ∈ reached S d c) : e ∈ coreMask S c := by
  unfold reached at he
  rw [if_pos hsmt, coreCpus_coreId] at he
  exact of_decide_eq_true (mem_filter.mp he).2

theorem reached_congr (hsmt : d1.hwHasSmt = d.hwHasSmt) (c : ℕ) : reached S d1 c = reached S d c := by
  unfold reached
  rw [hsmt]

theorem coreIsEligible_smt (hsmt : d.hwHasSmt = true) :
    coreIsEligible S d p c = true ↔ ∀ e ∈ coreMask S c, ¬(d.nodeInfo e).Blocks p := by
  unfold coreIsEligible CpuInfo.Blocks
  rw [if_pos hsmt, decide_eq_true_eq]

theorem Takeable.core (hsmt : d.hwHasSmt = true) (h : Takeable S p d e) (he : e ∈ coreMask S c) {x : ℕ}
    (hx : x ∈ coreMask S c) (hs : (d.nodeInfo x).state ≠ .disabled) : (d.nodeInfo x).guest = p ∨ Takeable S p d x := by
  have hmask : ∀ y ∈ coreMask S c, coreMask S y = coreMask S c := fun y hy => coreMask_of_mem (coreMask_mem hy).1 hy
  have hel := (coreIsEligible_smt hsmt).mp h.2.2.1
  rw [hmask e he] at hel
  have hfree := hel x hx
  unfold CpuInfo.Blocks at hfree
  push Not at hfree
  by_cases hg : (d.nodeInfo x).guest = p
  · exact .inl hg
  · refine .inr ⟨hs, hfree.1 hg, (coreIsEligible_smt hsmt).mpr (by rwa [hmask x hx]), ?_⟩
    cases hstate : (d.nodeInfo x).state with
    | disabled => exact absurd hstate hs
    | busy => exact .inl (hfree.2 hstate)
    | lent => exact .inr rfl

theorem borrow_visit_stuck (h : done (visit S (borrowCpu S p) (borrowCore S p) d c).2 = false) :
    (visit S (borrowCpu S p) (borrowCore S p) d c).1 = d := by
  unfold visit at h ⊢
  split
  · rename_i hsmt
    rw [if_pos hsmt] at h
    exact coreLoop_stuck (fun _ => borrowCpu_stuck) _ _ _ h
  · rename_i hsmt
    rw [if_neg hsmt] at h
    exact borrowCpu_stuck h

theorem acquire_visit_stuck (h : done (visit S (acquireCpu S p) (acquireCore S p) d c).2 = false) :
    (visit S (acquireCpu S p) (acquireCore S p) d c).1 = d := by
  unfold visit at h ⊢
  split
  · rename_i hsmt
    rw [if_pos hsmt] at h
    exact coreLoop_stuck (fun _ => acquireCpu_stuck) _ _ _ h
  · rename_i hsmt
    rw [if_neg hsmt] at h
    exact acquireCpu_stuck h

theorem borrow_visit_nothing (h : ∀ e ∈ reached S d c, ¬Takeable S p d e) :
    done (visit S (borrowCpu S p) (borrowCore S p) d c).2 = false := by
  have hno : ∀ e ∈ reached S d c, done (borrowCpu S p d e).2 = false := fun e he => by
    simpa using mt borrowCpu_done.mp (h e he)
  unfold visit
  unfold reached at hno
  split
  · rename_i hsmt
    rw [if_pos hsmt] at hno
    unfold borrowCore
    rw [coreLoop_nothing (fun _ => borrowCpu_stuck) _ _ _ hno]
    rfl
  · rename_i hsmt
    rw [if_neg hsmt] at hno
    exact hno c (mem_singleton_self c)

theorem visit_done {op : Shdata → ℕ → Shdata × DlbError} (hop : ∀ x, Takeable S p d x → done (op d x).2 = true)
    (hstuck : ∀ x, done (op d x).2 = false → (op d x).1 = d) (he : e ∈ reached S d c) (ht : Takeable S p d e)
    (hs : ∀ x ∈ reached S d c, (d.nodeInfo x).state ≠ .disabled) :
    done (visit S op (fun d k => coreLoop op p (coreCpus S k) d .noupdt 0) d c).2 = true := by
  have hmem : ∀ x ∈ reached S d c, d.hwHasSmt = true → x ∈ coreMask S c := fun x hx hsmt => mem_reached_smt hsmt hx
  unfold visit
  unfold reached at he hs hmem
  split
  · rename_i hsmt
    rw [if_pos hsmt] at he hs hmem
    refine coreLoop_done hstuck (hop e ht) _ _ _ he fun x hx => ?_
    exact (ht.core hsmt (hmem e he hsmt) (hmem x hx hsmt) (hs x hx)).imp_right (hop x)
  · rename_i hsmt
    rw [if_neg hsmt] at he
    exact mem_singleton.mp he ▸ hop e ht

theorem coreId_of_reached (he : e ∈ reached S d c) (hsmt : d.hwHasSmt = true) : muGetCoreId S c ≠ none := by
  intro hnone
  unfold reached coreCpus at he
  rw [if_pos hsmt, hnone] at he
  simp [muCpus] at he

end Take

/-! ## Nothing becomes takeable -/

section Tight

theorem NothingIn.same (h : NothingIn S W p d) (hsmt : d1.hwHasSmt = d.hwHasSmt)
    (hsame : ∀ x, (d.nodeInfo x).Same (d1.nodeInfo x)) : NothingIn S W p d1 := by
  have htake : ∀ x, Takeable S p d1 x → Takeable S p d x := by
    intro x
    unfold Takeable coreIsEligible
    simp only [fun y => (hsame y).state, fun y => (hsame y).guest, fun y => (hsame y).owner, hsmt, imp_self]
  intro w hw e he ht
  exact h w hw e (reached_congr hsmt w ▸ he) (htake e ht)

theorem NothingIn.congr (h : NothingIn S W p d) (hsmt : d1.hwHasSmt = d.hwHasSmt) (hinfo : d1.nodeInfo = d.nodeInfo) :
    NothingIn S W p d1 := h.same hsmt fun x => by rw [hinfo]; exact .refl _

theorem NothingIn.write (h : NothingIn S W p d) (hsmt : d1.hwHasSmt = d.hwHasSmt)
    (hinfo : d1.nodeInfo = update d.nodeInfo c i) (hguest : i.guest ≠ 0)
    (hblocks : (d.nodeInfo c).Blocks p → i.Blocks p) : NothingIn S W p d1 := by
  intro w hw e he ht
  have hec : e ≠ c := by
    rintro rfl
    have hg : (d1.nodeInfo e).guest = 0 := ht.2.1
    rw [hinfo, update_self] at hg
    exact hguest hg
  have hsame : d1.nodeInfo e = d.nodeInfo e := by rw [hinfo, update_of_ne hec]
  refine h w hw e (reached_congr hsmt w ▸ he) ?_
  obtain ⟨hs, hg, hel, htake⟩ := ht
  rw [hsame] at hs hg htake
  refine ⟨hs, hg, ?_, htake⟩
  cases hd : d.hwHasSmt with
  | false =>
    unfold coreIsEligible at hel ⊢
    rw [hsmt, hd, hsame] at hel
    rwa [hd]
  | true =>
    rw [coreIsEligible_smt (hsmt.trans hd)] at hel
    rw [coreIsEligible_smt hd]
    intro x hx hb
    refine hel x hx ?_
    rw [hinfo]
    by_cases hxc : x = c
    · rw [hxc, update_self]
      exact hblocks (hxc ▸ hb)
    · rwa [update_of_ne hxc]

theorem reclaimCpu_nothing (h : NothingIn S W p d) (hq0 : q ≠ 0) : NothingIn S W p (reclaimCpu q d c).1 := by
  unfold reclaimCpu
  dsimp only
  split
  · split
    · rename_i hg
      exact h.write rfl rfl (hg ▸ hq0) fun hb => hb.imp id fun hb => ⟨rfl, hb.2⟩
    split
    · rename_i hg
      exact h.write rfl rfl hq0 fun hb => .inr (hb.elim (fun hb => absurd hg hb.2) fun hb => ⟨rfl, hb.2⟩)
    · rename_i hg
      exact h.write rfl rfl hg fun hb => hb.imp id fun hb => ⟨rfl, hb.2⟩
  · exact h

theorem noteOccupied_nothing (h : NothingIn S W p d) : NothingIn S W p (noteOccupied S d c) := by
  unfold noteOccupied
  split
  · exact h.congr rfl rfl
  · exact h

theorem noteOccupiedOwned_nothing (h : NothingIn S W p d) : NothingIn S W p (noteOccupiedOwned S d c) := by
  unfold noteOccupiedOwned
  split
  · exact noteOccupied_nothing h
  · exact h

theorem acquireCpu_nothing (h : NothingIn S W p d) (hq0 : q ≠ 0) : NothingIn S W p (acquireCpu S q d c).1 := by
  unfold acquireCpu
  dsimp only
  split
  · exact h
  split
  · split
    · rename_i hg
      exact h.write rfl rfl hq0 fun hb => .inr (hb.elim (fun hb => absurd hg hb.2) fun hb => ⟨rfl, hb.2⟩)
    · rename_i hg
      exact noteOccupied_nothing (h.write rfl rfl hg fun hb => hb.imp id fun hb => ⟨rfl, hb.2⟩)
  split
  · rename_i hav
    have htake : NothingIn S W p ((d.set c { d.nodeInfo c with guest := q }).push .enableCpu q c) := by
      refine h.write rfl rfl hq0 fun hb => ?_
      rcases hb with hb | hb
      · exact absurd hav.1 hb.2
      · exact absurd (hav.2.1.symm.trans hb.1) nofun
    exact (noteOccupiedOwned_nothing (c := c) htake).congr rfl rfl
  split
  · split
    · exact h.same rfl (OnlyRequests.setRequests _).same
    · exact h
  split
  · exact h
  · exact h

theorem borrowCpu_nothing (h : NothingIn S W p d) (hq0 : q ≠ 0) : NothingIn S W p (borrowCpu S q d c).1 := by
  unfold borrowCpu
  dsimp only
  split
  · exact h
  split
  · rename_i hg
    split
    · exact h.write rfl rfl hq0 fun hb => .inr (hb.elim (fun hb => absurd hg.1 hb.2) fun hb => ⟨rfl, hb.2⟩)
    split
    · rename_i hl
      refine noteOccupiedOwned_nothing (h.write rfl rfl hq0 fun hb => ?_)
      rcases hb with hb | hb
      · exact absurd hg.1 hb.2
      · exact absurd (hl.symm.trans hb.1) nofun
    · exact h
  · exact h

theorem checkCpuAvailability_nothing (h : NothingIn S W p d) (hq0 : q ≠ 0) (before : CpuInfo) :
    NothingIn S W p (checkCpuAvailability before d q c).1 := by
  unfold checkCpuAvailability
  split
  · exact h
  split
  · exact h
  split
  · split
    · rename_i hg
      exact h.write rfl rfl hq0 fun hb => .inr (hb.elim (fun hb => absurd hg hb.2) id)
    · exact h
  split
  · exact h
  · exact h

/-- Nothing to take, and the time of the last lend. -/
def NothingSince (S : System) (W : Set ℕ) (p : Pid) (t : ℤ) (d : Shdata) : Prop :=
  NothingIn S W p d ∧ d.timestampCpuLent = t

theorem reclaimCpu_timestamp : (reclaimCpu q d c).1.timestampCpuLent = d.timestampCpuLent := by
  unfold reclaimCpu
  dsimp only
  split_ifs <;> rfl

theorem acquireCpu_timestamp : (acquireCpu S q d c).1.timestampCpuLent = d.timestampCpuLent := by
  have hnote : ∀ d' : Shdata, (noteOccupied S d' c).timestampCpuLent = d'.timestampCpuLent := by
    intro d'
    unfold noteOccupied
    split <;> rfl
  have hnoteOwned : ∀ d' : Shdata, (noteOccupiedOwned S d' c).timestampCpuLent = d'.timestampCpuLent := by
    intro d'
    unfold noteOccupiedOwned
    split
    · exact hnote d'
    · rfl
  unfold acquireCpu
  dsimp only
  split
  · rfl
  split
  · split
    · rfl
    · exact hnote _
  split
  · exact hnoteOwned _
  split
  · split <;> rfl
  split <;> rfl

theorem nothing_takes (hq0 : q ≠ 0) (t : ℤ) : Takes S q (NothingSince S W p t) where
  start _ h := ⟨h.1.congr rfl rfl, h.2⟩
  reclaim _ _ h := ⟨reclaimCpu_nothing h.1 hq0, reclaimCpu_timestamp.trans h.2⟩
  acquire _ _ h := ⟨acquireCpu_nothing h.1 hq0, acquireCpu_timestamp.trans h.2⟩
  borrow _ _ h := ⟨borrowCpu_nothing h.1 hq0, (borrowCpu_borrowed hq0).timestamp.trans h.2⟩

theorem acquireNcpus_since {t : ℤ} (h : NothingSince S W p t d) (hq0 : q ≠ 0) (co : Caller) (w : Wish) (u : Unlocked) :
    NothingSince S W p t (shmemAcquireNcpusFromCpuSubset S co d q w u).1 := by
  unfold shmemAcquireNcpusFromCpuSubset
  split
  · exact h
  · refine addPetitions_keeps (fun d request hd => ?_) (fun r c hr => ?_) w _ ((nothing_takes hq0 t).stages h w _)
    · unfold petition
      split
      · exact ⟨hd.1.congr rfl rfl, hd.2⟩
      split
      · exact ⟨hd.1.congr rfl rfl, hd.2⟩
      · exact hd
    · unfold petitionCpu
      dsimp only
      split
      · split
        · split
          · exact ⟨hr.1.same rfl (OnlyRequests.setRequests _).same, hr.2⟩
          · exact hr
        · exact hr
      · exact hr

end Tight

/-! ## The loops over an array -/

section Arrays

variable {l : List ℕ} {n : ℤ}

theorem borrowCpu_ne_noted : (borrowCpu S p d c).2 ≠ .noted := by
  unfold borrowCpu
  dsimp only
  split_ifs <;> exact nofun

theorem borrowCpus_success (h : done (borrowCpusInArray S p d l n).2.1 = true) :
    (borrowCpusInArray S p d l n).2.1 = .success := by
  have hcore : ∀ d k, (borrowCore S p d k).2.1 ≠ .noted := fun d k =>
    coreLoop_ne_noted (fun _ _ => borrowCpu_ne_noted) (coreCpus S k) d .noupdt 0 nofun
  have hne : (borrowCpusInArray S p d l n).2.1 ≠ .noted :=
    arrayLoop_ne_noted (fun _ _ => borrowCpu_ne_noted) hcore l none d n .noupdt nofun
  unfold done at h
  simpa [hne] using h

theorem borrowCpus_nothing (h : ∀ c ∈ l, ∀ e ∈ reached S d c, ¬Takeable S p d e) :
    borrowCpusInArray S p d l n = (d, .noupdt, n) :=
  arrayLoop_nothing (fun _ => borrow_visit_stuck) l none n .noupdt fun c hc => borrow_visit_nothing (h c hc)

/-- A CPU of the array whose visit gets something, in a core that has no disabled CPU. -/
structure Open (S : System) (p : Pid) (d : Shdata) (c e : ℕ) : Prop where
  reached : e ∈ reached S d c
  take : Takeable S p d e
  enabled : ∀ x ∈ Cpuinfo.reached S d c, (d.nodeInfo x).state ≠ .disabled

theorem borrowCpus_done (h : Open S p d c e) (hc : c ∈ l) (hn : 0 < n) : (borrowCpusInArray S p d l n).2.1 = .success := by
  refine borrowCpus_success (arrayLoop_done (fun _ => borrow_visit_stuck) (c := c) ?_ (coreId_of_reached h.reached) l none n
    .noupdt hc hn fun _ => .inl rfl)
  exact visit_done (fun _ => borrowCpu_done.mpr) (fun _ => borrowCpu_stuck) h.reached h.take h.enabled

theorem acquireCpus_done (hp0 : p ≠ 0) (h : Open S p d c e) (hc : c ∈ l) (hn : 0 < n) :
    done (acquireCpusInArray S p d l n).2.1 = true := by
  refine arrayLoop_done (fun _ => acquire_visit_stuck) (c := c) ?_ (coreId_of_reached h.reached) l none n
    .noupdt hc hn fun _ => .inl rfl
  exact visit_done (fun _ => acquireCpu_done hp0) (fun _ => acquireCpu_stuck) h.reached h.take h.enabled

theorem acquireCpus_stuck (h : done (acquireCpusInArray S p d l n).2.1 = false) :
    (acquireCpusInArray S p d l n).1 = d ∧ (acquireCpusInArray S p d l n).2.2 = n :=
  arrayLoop_stuck (fun _ => acquire_visit_stuck) l none n .noupdt h

theorem borrowFreeNodes_success {w : Wish} {r : Shdata × DlbError × ℤ} (h : r.2.1 = .success) :
    (borrowFreeNodes S w p r).2.1 = .success := by
  unfold borrowFreeNodes stage
  split
  · split
    · exact h
    · dsimp only
      split
      · rename_i hdone
        unfold mergeDone
        rw [h, if_neg nofun]
        exact borrowCpus_success hdone
      · exact h
  · exact h

/-! ## The three stages of an acquire -/

theorem stage_of_done {loop : Shdata → List ℕ → ℤ → Shdata × DlbError × ℤ} {r : Shdata × DlbError × ℤ}
    (h : done r.2.1 = true) : done (stage loop l r).2.1 = true := by
  unfold stage
  split
  · exact h
  · dsimp only
    split
    · rename_i hdone
      exact done_mergeDone hdone
    · exact h

theorem stage_done {loop : Shdata → List ℕ → ℤ → Shdata × DlbError × ℤ} {r : Shdata × DlbError × ℤ} (hl : l ≠ [])
    (h : done (loop r.1 l r.2.2).2.1 = true) : done (stage loop l r).2.1 = true := by
  unfold stage
  rw [if_neg hl]
  dsimp only
  rw [if_pos h]
  exact done_mergeDone h

theorem acquireStage_stuck {r : Shdata × DlbError × ℤ}
    (h : done (stage (acquireCpusInArray S p) l r).2.1 = false) : stage (acquireCpusInArray S p) l r = r := by
  unfold stage at h ⊢
  split
  · rfl
  · rename_i hl
    rw [if_neg hl] at h
    dsimp only at h ⊢
    cases hdone : done (acquireCpusInArray S p r.1 l r.2.2).2.1 with
    | true =>
      rw [hdone, if_pos rfl, done_mergeDone hdone] at h
      cases h
    | false =>
      obtain ⟨hshm, hncpus⟩ := acquireCpus_stuck hdone
      rw [hshm, hncpus, if_neg Bool.false_ne_true]

theorem acquireStages_done (hp0 : p ≠ 0) {w : Wish} (h : Open S p d c c) (hc : c ∈ w.cpusPriorityArray) (hn : 0 < n) :
    done (acquireStages S w d p n).2.1 = true := by
  have hmem : ∀ {P : CpuInfo → Bool}, P (d.nodeInfo c) = true →
      c ∈ w.cpusPriorityArray.filter fun c => P (d.nodeInfo c) := fun hP => mem_filter.mpr ⟨hc, hP⟩
  obtain ⟨hs, hg, -, htake⟩ := h.take
  unfold acquireStages
  dsimp only
  by_cases ho : (d.nodeInfo c).owner = p
  · -- an owned CPU that is idle is acquired first
    have hfirst := hmem (P := ownedIdle p) (by simp [ownedIdle, hs, ho, hg])
    exact stage_of_done (stage_of_done (stage_done (ne_nil_of_mem hfirst) (acquireCpus_done hp0 h hfirst hn)))
  · have hlast := hmem (P := nonOwned p) (by simp [nonOwned, hs, ho, hg])
    cases h1 : done (stage (acquireCpusInArray S p) (w.cpusPriorityArray.filter fun c => ownedIdle p (d.nodeInfo c))
        (d, .noupdt, n)).2.1 with
    | true => exact stage_of_done (stage_of_done h1)
    | false =>
      rw [acquireStage_stuck h1]
      cases h2 : done (stage (acquireCpusInArray S p) (w.cpusPriorityArray.filter fun c => ownedNonIdle p (d.nodeInfo c))
          (d, .noupdt, n)).2.1 with
      | true => exact stage_of_done h2
      | false =>
        rw [acquireStage_stuck h2]
        refine stage_done (ne_nil_of_mem hlast) ?_
        rw [borrowCpus_done h hlast hn]
        rfl

/-- What an acquire does that gets nothing at once: it reclaims CPUs of its own from their guests. -/
structure Recalled (p : Pid) (d d1 : Shdata) : Prop where
  smt : d1.hwHasSmt = d.hwHasSmt
  queues : d1.queuesEnabled = d.queuesEnabled
  guest : ∀ x, (d1.nodeInfo x).guest = (d.nodeInfo x).guest
  owner : ∀ x, (d1.nodeInfo x).owner = (d.nodeInfo x).owner
  other : ∀ x, (d.nodeInfo x).owner ≠ p → d1.nodeInfo x = d.nodeInfo x

theorem acquireCpu_recalled (h : Recalled p d d1) (hc : ownedNonIdle p (d.nodeInfo c) = true) :
    Recalled p d (acquireCpu S p d1 c).1 := by
  obtain ⟨-, ho, hg0, hg⟩ : _ ∧ _ ∧ _ ∧ _ := of_decide_eq_true hc
  have hnote : ∀ d' : Shdata, Recalled p d d' → Recalled p d (noteOccupied S d' c) := by
    intro d' h'
    unfold noteOccupied
    split
    · exact ⟨h'.smt, h'.queues, h'.guest, h'.owner, h'.other⟩
    · exact h'
  unfold acquireCpu
  dsimp only
  rw [h.guest, h.owner, if_neg hg, if_pos ho, if_neg hg0]
  refine hnote _ ⟨h.smt, h.queues, fun x => ?_, fun x => ?_, fun x hx => ?_⟩
  · show (update d1.nodeInfo c _ x).guest = _
    by_cases hxc : x = c
    · rw [hxc, update_self]
    · rw [update_of_ne hxc]
      exact h.guest x
  · show (update d1.nodeInfo c _ x).owner = _
    by_cases hxc : x = c
    · rw [hxc, update_self]
    · rw [update_of_ne hxc]
      exact h.owner x
  · show update d1.nodeInfo c _ x = _
    have hxc : x ≠ c := by
      rintro rfl
      exact hx ho
    rw [update_of_ne hxc]
    exact h.other x hx

theorem acquireStages_nothing (hp0 : p ≠ 0) {w : Wish} (h : NothingIn S W p d) (hW : ∀ c ∈ w.cpusPriorityArray, c ∈ W)
    (hown : d.hwHasSmt = true → ∀ c ∈ w.cpusPriorityArray, (d.nodeInfo c).owner = p → (d.nodeInfo c).guest = p) :
    Recalled p d (acquireStages S w d p n).1 := by
  have hstage : ∀ (P : CpuInfo → Bool) loop r, (∀ c ∈ w.cpusPriorityArray, P (d.nodeInfo c) = false) →
      stage loop (w.cpusPriorityArray.filter fun c => P (d.nodeInfo c)) r = r := by
    intro P loop r hP
    unfold stage
    rw [if_pos (filter_eq_nil_iff.mpr fun c hc => by rw [hP c hc]; exact Bool.false_ne_true)]
  have hborrow : ∀ d2 : Shdata, Recalled p d d2 → (∀ c ∈ w.cpusPriorityArray, nonOwned p (d.nodeInfo c) = true →
      ∀ e ∈ reached S d2 c, ¬Takeable S p d2 e) → ∀ (error : DlbError) (n : ℤ), Recalled p d
        (stage (borrowCpusInArray S p) (w.cpusPriorityArray.filter fun c => nonOwned p (d.nodeInfo c)) (d2, error, n)).1 := by
    intro d2 h2 hno error n
    unfold stage
    split
    · exact h2
    · dsimp only
      rw [borrowCpus_nothing fun c hc => ?_]
      · exact h2
      · obtain ⟨hmem, hP⟩ := mem_filter.mp hc
        exact hno c hmem hP
  unfold acquireStages
  dsimp only
  cases hsmt : d.hwHasSmt with
  | true =>
    rw [hstage (ownedIdle p), hstage (ownedNonIdle p)]
    · exact hborrow d ⟨rfl, rfl, fun _ => rfl, fun _ => rfl, fun _ _ => rfl⟩ (fun c hc _ => h c (hW c hc)) _ _
    · intro c hc
      by_contra hP
      obtain ⟨-, ho, -, hg⟩ : _ ∧ _ ∧ _ ∧ _ := of_decide_eq_true (eq_true_of_ne_false hP)
      exact hg (hown hsmt c hc ho)
    · intro c hc
      by_contra hP
      obtain ⟨-, ho, hg⟩ : _ ∧ _ ∧ _ := of_decide_eq_true (eq_true_of_ne_false hP)
      exact hp0 ((hown hsmt c hc ho).symm.trans hg)
  | false =>
    -- without SMT nothing but the CPU itself matters
    have halone : ∀ d2 : Shdata, d2.hwHasSmt = false → ∀ x, reached S d2 x = [x] := fun d2 h2 x => by
      unfold reached
      rw [h2, if_neg Bool.false_ne_true]
    rw [hstage (ownedIdle p)]
    · have hrun : Recalled p d (stage (acquireCpusInArray S p)
          (w.cpusPriorityArray.filter fun c => ownedNonIdle p (d.nodeInfo c)) (d, .noupdt, n)).1 := by
        unfold stage
        split
        · exact ⟨rfl, rfl, fun _ => rfl, fun _ => rfl, fun _ _ => rfl⟩
        · exact arrayLoop_keeps_cpus (P := Recalled p d) (fun _ hd => hd.smt.trans hsmt) _ _ _ _ _
            (fun _ c hc hd => acquireCpu_recalled hd (mem_filter.mp hc).2)
            ⟨rfl, rfl, fun _ => rfl, fun _ => rfl, fun _ _ => rfl⟩
      refine hborrow _ hrun (fun c hc hP e he ht => ?_) _ _
      have hec : e = c := by
        rw [halone _ (hrun.smt.trans hsmt)] at he
        exact mem_singleton.mp he
      obtain ⟨-, ho, -⟩ : _ ∧ _ ∧ _ := of_decide_eq_true hP
      refine h c (hW c hc) c (by rw [halone d hsmt]; exact mem_singleton_self c) ?_
      rw [hec] at ht
      unfold Takeable coreIsEligible at ht ⊢
      rw [hrun.smt, hsmt, if_neg Bool.false_ne_true, hrun.other c ho] at ht
      rwa [hsmt, if_neg Bool.false_ne_true]
    · intro c hc
      by_contra hP
      obtain ⟨hs, ho, hg⟩ : _ ∧ _ ∧ _ := of_decide_eq_true (eq_true_of_ne_false hP)
      refine h c (hW c hc) c (by rw [halone d hsmt]; exact mem_singleton_self c) ⟨hs, hg, ?_, .inl ho⟩
      unfold coreIsEligible
      simp [hsmt, ho]

end Arrays

/-! ## Calls of the process -/

/-- The CPUs that a call may ask for are among `W`. -/
structure Wish.Within (S : System) (W : Set ℕ) (w : Wish) : Prop where
  array : ∀ c ∈ w.cpusPriorityArray, c ∈ W
  nodes : w.lewiAffinity = .spreadIfempty → ∀ c < S.size, c ∈ W

theorem borrowFreeNodes_nothing (h : NothingIn S W p d) {w : Wish} (hw : w.Within S W) {error : DlbError} {n : ℤ} :
    (borrowFreeNodes S w p (d, error, n)).1 = d := by
  unfold borrowFreeNodes stage
  split
  · rename_i hspread
    split
    · rfl
    · dsimp only
      rw [borrowCpus_nothing fun c hc => h c (hw.nodes hspread.1 c (mem_nodeCpus.mp hc).1)]
  · rfl

inductive Ask where
  | acquire | borrow
deriving DecidableEq, Repr

namespace Ask

variable (S) in
def exec (k : Ask) (co : Caller) (d : Shdata) (pid : Pid) (w : Wish) (u : Unlocked) : Shdata × Output :=
  match k with
  | .acquire => shmemAcquireNcpusFromCpuSubset S co d pid w u
  | .borrow => shmemBorrowNcpusFromCpuSubset S co d pid w u

/-- The test of `last_borrow`. -/
def stale (k : Ask) (w : Wish) (u : Unlocked) (pid : Pid) : Bool :=
  match k with
  | .acquire => w.stale u && allOwnedCpusAreGuested u.ownedScan pid w.cpusPriorityArray
  | .borrow => w.stale u

/-- The call comes to a CPU that the process can take: an acquire to one of the array, and a borrow with SMT to the rest
of its core as well. No CPU of the core is disabled, and `free_cpus` is not empty. -/
def Offered (S : System) (k : Ask) (pid : Pid) (d : Shdata) (w : Wish) : Prop :=
  (k = .borrow → d.freeCpus ≠ ∅) ∧ ∃ c ∈ w.cpusPriorityArray, c < S.size ∧ ∃ e ∈ reached S d c, (k = .acquire → e = c) ∧
    Takeable S pid d e ∧ ∀ x ∈ reached S d c, (d.nodeInfo x).state ≠ .disabled

variable {k : Ask} {co : Caller} {w : Wish} {u : Unlocked}

theorem exec_early (h : w.returnsEarly u p (k.stale w u p) = true) :
    k.exec S co d p w u = (d, { error := .noupdt, lastBorrow := w.lastBorrow }) := by
  cases k with
  | acquire => exact if_pos h
  | borrow => exact if_pos h

theorem exec_lastBorrow : (k.exec S co d p w u).2.lastBorrow = w.lastBorrow ∨
    (k.exec S co d p w u).2.lastBorrow = w.lastBorrow.map fun _ => co.now := by
  cases k with
  | acquire =>
    unfold exec shmemAcquireNcpusFromCpuSubset
    dsimp only
    split
    · exact .inl rfl
    · exact ite_eq_or_eq _ _ _
  | borrow =>
    unfold exec shmemBorrowNcpusFromCpuSubset
    dsimp only
    split
    · exact .inl rfl
    · exact ite_eq_or_eq _ _ _

theorem exec_flags : SameFlags d (k.exec S co d p w u).1 := by
  cases k with
  | acquire => exact ((asks_kept d).acquireNcpus (.refl d) co w u).flags
  | borrow => exact ((asks_kept d).borrowNcpus (.refl d) co w u).flags

theorem exec_since {t : ℤ} (h : NothingSince S W p t d) (hp0 : p ≠ 0) : NothingSince S W p t (k.exec S co d p w u).1 := by
  cases k with
  | acquire => exact acquireNcpus_since h hp0 co w u
  | borrow => exact (nothing_takes hp0 t).borrowNcpus h co w u

theorem ncpus_pos (h : ¬w.returnsEarly u p (k.stale w u p) = true) (hc : c < S.size) : 0 < w.ncpus S u p :=
  Wish.ncpus_pos (Wish.requested_pos h) (Nat.zero_lt_of_lt hc)

theorem acquire_attempt (hq : d.queuesEnabled = false)
    (h : ¬w.returnsEarly u p (stale .acquire w u p) = true) : exec S .acquire co d p w u =
      ((acquireStages S w d p (w.ncpus S u p)).1,
        { error := (acquireStages S w d p (w.ncpus S u p)).2.1
          lastBorrow := if done (acquireStages S w d p (w.ncpus S u p)).2.1 then w.lastBorrow
            else w.lastBorrow.map fun _ => co.now }) := by
  have hpoll : (acquireStages S w d p (w.ncpus S u p)).1.queuesEnabled = false :=
    ((asks_kept d).stages (.refl d) w (w.ncpus S u p)).flags.queues.trans hq
  have hnone : addPetitions w p (acquireStages S w d p (w.ncpus S u p)) =
      ((acquireStages S w d p (w.ncpus S u p)).1, (acquireStages S w d p (w.ncpus S u p)).2.1) := by
    unfold addPetitions
    rw [hpoll, if_neg Bool.false_ne_true]
  refine (if_neg h).trans ?_
  rw [hnone]

theorem borrow_attempt (h : ¬w.returnsEarly u p (stale .borrow w u p) = true) : exec S .borrow co d p w u =
    (let r := borrowFreeNodes S w p
      (borrowCpusInArray S p d w.cpusPriorityArray (if d.freeCpus = ∅ then 0 else w.ncpus S u p))
    (r.1, { error := r.2.1
            lastBorrow := if r.2.1 = .success then w.lastBorrow else w.lastBorrow.map fun _ => co.now })) := if_neg h

theorem exec_offered (hp0 : p ≠ 0) (hq : d.queuesEnabled = false) (hoffered : k.Offered S p d w)
    (hearly : ¬w.returnsEarly u p (k.stale w u p) = true) : (k.exec S co d p w u).2.lastBorrow = w.lastBorrow := by
  obtain ⟨hfree, c, hc, hlt, e, he, heq, htake, hs⟩ := hoffered
  have hn := ncpus_pos hearly hlt
  have hopen : Open S p d c e := ⟨he, htake, hs⟩
  cases k with
  | acquire =>
    have hdone := acquireStages_done (n := w.ncpus S u p) hp0 (heq rfl ▸ hopen) hc hn
    rw [acquire_attempt hq hearly]
    exact if_pos hdone
  | borrow =>
    have hdone := borrowCpus_done hopen hc hn
    rw [borrow_attempt hearly, if_neg (hfree rfl)]
    exact if_pos (borrowFreeNodes_success hdone)

theorem exec_nothing (hp0 : p ≠ 0) (hq : d.queuesEnabled = false) (h : NothingIn S W p d) (hw : w.Within S W)
    (hown : k = .acquire → d.hwHasSmt = true →
      ∀ c ∈ w.cpusPriorityArray, (d.nodeInfo c).owner = p → (d.nodeInfo c).guest = p) (x : ℕ) :
    ((k.exec S co d p w u).1.nodeInfo x).guest = (d.nodeInfo x).guest := by
  by_cases hearly : w.returnsEarly u p (k.stale w u p) = true
  · rw [exec_early hearly]
  cases k with
  | acquire =>
    rw [acquire_attempt hq hearly]
    exact (acquireStages_nothing hp0 h hw.array (hown rfl)).guest x
  | borrow =>
    have hnothing : borrowCpusInArray S p d w.cpusPriorityArray (if d.freeCpus = ∅ then 0 else w.ncpus S u p) =
        (d, .noupdt, if d.freeCpus = ∅ then 0 else w.ncpus S u p) :=
      borrowCpus_nothing fun c hc => h c (hw.array c hc)
    rw [borrow_attempt hearly, hnothing]
    rw [borrowFreeNodes_nothing h hw]

end Ask

/-! ## Runs -/

/-- The shared memory, `last_borrow` of the process, and the last time that was read. -/
structure Shortcut where
  shm : Shdata
  lastBorrow : ℤ
  clock : ℤ

/-- The process asks for CPUs or enables DLB again, or any process does another operation. A clock is read some `ticks`
after the last one. -/
inductive ShortcutEvent where
  | ask (k : Ask) (co : Caller) (ticks : ℕ) (w : Wish)
  | enableDlb
  | op (co : Caller) (ticks : ℕ) (pid : Pid) (op : Op)

def ShortcutEvent.Polling : ShortcutEvent → Prop
  | .op _ _ pid operation => pid ≠ 0 ∧ operation ≠ .lewiInit true
  | _ => True

/-- The operations that may free a CPU and store no time: the returns, and changes of the process mask. -/
def Op.Opening : Op → Prop
  | .init _ _ | .updateOwnership _ _ => True
  | .lewi call => call.Returning
  | _ => False

/-- The CPUs that the process owns come first in the array. -/
def OwnedFirst (pid : Pid) (d : Shdata) (cpus : List ℕ) : Prop :=
  cpus.Pairwise fun a b => (d.nodeInfo b).owner = pid → (d.nodeInfo a).owner = pid

namespace Shortcut

variable (S) (p : Pid) (r : Shortcut)

def now (co : Caller) (ticks : ℕ) : Caller := { co with now := r.clock + ticks + 1 }

/-- The call of the process with the shortcut, and without it (`last_borrow = NULL`). -/
def ask (k : Ask) (co : Caller) (w : Wish) (lastBorrow : Option ℤ) : Shdata × Output :=
  k.exec S co { r.shm with tasks := [] } p { w with lastBorrow := lastBorrow } r.shm.unlocked

def next : ShortcutEvent → Shortcut
  | .ask k co ticks w =>
    let a := r.ask S p k (r.now co ticks) w (some r.lastBorrow)
    { shm := a.1, lastBorrow := a.2.lastBorrow.getD r.lastBorrow, clock := r.clock + ticks + 1 }
  | .enableDlb => { r with lastBorrow := 0 }
  | .op co ticks pid op =>
    { r with shm := (op.exec S (r.now co ticks) pid r.shm).1, clock := r.clock + ticks + 1 }

/-- The test of `last_borrow` tells the call to return. -/
def Stale (k : Ask) (w : Wish) : Prop := k.stale { w with lastBorrow := some r.lastBorrow } r.shm.unlocked p = true

def Early (k : Ask) (w : Wish) : Prop :=
  Wish.returnsEarly { w with lastBorrow := some r.lastBorrow } r.shm.unlocked p
    (k.stale { w with lastBorrow := some r.lastBorrow } r.shm.unlocked p) = true

/-- When the shortcut makes a call return, the same call without the shortcut changes no guest. -/
def Faithful : ShortcutEvent → Prop
  | .ask k co ticks w => r.Stale p k w →
    ∀ x, ((r.ask S p k (r.now co ticks) w none).1.nodeInfo x).guest = (r.shm.nodeInfo x).guest
  | _ => True

/-- The process asks for CPUs of `W` only, and an attempt that is made while one of them can be taken is offered one.
With SMT an acquire has its own CPUs first. What is freed while the shortcut holds cannot be taken. -/
def Safe (W : Set ℕ) : ShortcutEvent → Prop
  | .ask k _ _ w => w.Within S W ∧ (r.Early p k w ∨ NothingIn S W p r.shm ∨ k.Offered S p r.shm w) ∧
    (k = .acquire → r.shm.hwHasSmt = true → OwnedFirst p r.shm w.cpusPriorityArray)
  | .enableDlb => True
  | .op co ticks pid op => op.Opening →
    (r.next S p (.op co ticks pid op)).shm.timestampCpuLent < r.lastBorrow →
      NothingIn S W p (r.next S p (.op co ticks pid op)).shm

/-- While the shortcut holds, the process can take none of the CPUs `W`. -/
structure Kept (W : Set ℕ) (r : Shortcut) : Prop where
  initialized : r.shm.initialized = true
  queues : r.shm.queuesEnabled = false
  nonneg : 0 ≤ r.lastBorrow
  lastBorrow : r.lastBorrow ≤ r.clock
  nothing : r.shm.timestampCpuLent < r.lastBorrow → NothingIn S W p r.shm

end Shortcut

section Run

variable {co : Caller} {r : Shortcut} {k : Ask} {w : Wish}

theorem call_since (hq0 : q ≠ 0) {call : Call} (hcall : ¬call.Returning) :
    (Cpuinfo.exec S co q d call).timestampCpuLent = co.now ∨ ∀ (W : Set ℕ) (t : ℤ), NothingSince S W p t d →
      NothingSince S W p t (Cpuinfo.exec S co q d call) := by
  by_cases htaking : call.Taking
  · exact .inr fun W t h => (nothing_takes hq0 t).exec h co htaking
  have hstart : ∀ (W : Set ℕ) (t : ℤ), NothingSince S W p t d → NothingSince S W p t { d with tasks := [] } :=
    fun W t h => (nothing_takes hq0 t).start d h
  unfold Cpuinfo.exec
  generalize { d with tasks := [] } = d0 at hstart ⊢
  cases call with
  | lendCpu cpuid =>
    unfold shmemLendCpu
    dsimp only
    split
    · exact .inr hstart
    · exact .inl rfl
  | lendCpuMask mask => exact .inl rfl
  | reclaimCpu cpuid =>
    refine .inr fun W t h => shmemReclaimCpu_keeps (nothing_takes hq0 t).reclaim (fun d cpuid c hd => ?_) (hstart W t h) cpuid
    unfold disableRest
    split
    · exact ⟨hd.1.congr rfl rfl, hd.2⟩
    · exact hd
  | acquireNcpusFromCpuSubset wish unlocked => exact .inr fun W t h => acquireNcpus_since (hstart W t h) hq0 co wish unlocked
  | reset => exact .inl rfl
  | updateMaxParallelism max => exact .inl rfl
  | returnAll | returnCpu _ | returnCpuMask _ => exact absurd trivial hcall
  | reclaimAll | reclaimCpus _ | reclaimCpuMask _ | acquireCpu _ | acquireFromCpuSubset _ | borrowCpu _
  | borrowFromCpuSubset _ | borrowNcpusFromCpuSubset _ _ => exact absurd trivial htaking

theorem exec_since (hq0 : q ≠ 0) {op : Op} (hop : ¬op.Opening) :
    (op.exec S co q d).1.timestampCpuLent = co.now ∨ ∀ (W : Set ℕ) (t : ℤ), NothingSince S W p t d →
      NothingSince S W p t (op.exec S co q d).1 := by
  have hstart : ∀ (W : Set ℕ) (t : ℤ), NothingSince S W p t d → NothingSince S W p t { d with tasks := [] } :=
    fun W t h => (nothing_takes hq0 t).start d h
  unfold Op.exec
  generalize { d with tasks := [] } = d0 at hstart ⊢
  cases op with
  | init _ _ | updateOwnership _ _ => exact absurd trivial hop
  | lewiInit async =>
    refine .inr fun W t h => ?_
    dsimp only
    split
    · exact ⟨(hstart W t h).1.congr rfl rfl, (hstart W t h).2⟩
    · exact hstart W t h
  | lewi call =>
    have hcall : (Cpuinfo.exec S co q d0 call).timestampCpuLent = co.now ∨ ∀ (W : Set ℕ) (t : ℤ),
        NothingSince S W p t d0 → NothingSince S W p t (Cpuinfo.exec S co q d0 call) := call_since hq0 hop
    exact hcall.imp id fun h W t hd => h W t (hstart W t hd)
  | removeRequests =>
    refine .inr fun W t h => ?_
    dsimp only
    unfold shmemRemoveRequests
    split
    · refine ⟨(hstart W t h).1.same rfl fun x => ?_, (hstart W t h).2⟩
      dsimp only
      split
      · exact ⟨rfl, rfl, rfl⟩
      · exact .refl _
    · exact hstart W t h
  | checkCpuAvailability before cpuid =>
    refine .inr fun W t h => ⟨checkCpuAvailability_nothing (hstart W t h).1 hq0 before, ?_⟩
    have htime : (checkCpuAvailability before d0 q cpuid).1.timestampCpuLent = d0.timestampCpuLent := by
      unfold checkCpuAvailability
      split_ifs <;> rfl
    exact htime.trans (hstart W t h).2
  | deregister => exact .inl rfl
  | finalize => exact .inl rfl

theorem Shortcut.Kept.next (hp0 : p ≠ 0) (h : r.Kept S p W) (e : ShortcutEvent) (he : e.Polling) (hsafe : r.Safe S p W e) :
    (r.next S p e).Kept S p W := by
  have hlate := h.lastBorrow
  have hnonneg := h.nonneg
  have hnothing := h.nothing
  cases e with
  | ask k co ticks w =>
    obtain ⟨-, hoffered, -⟩ := hsafe
    have hflags : SameFlags r.shm (r.ask S p k (r.now co ticks) w (some r.lastBorrow)).1 :=
      (SameFlags.mk rfl rfl rfl : SameFlags r.shm { r.shm with tasks := [] }).trans Ask.exec_flags
    have hsince : ∀ (W : Set ℕ) (t : ℤ), NothingSince S W p t r.shm →
        NothingSince S W p t (r.ask S p k (r.now co ticks) w (some r.lastBorrow)).1 :=
      fun W t h => Ask.exec_since ((nothing_takes hp0 t).start _ h) hp0
    have htime : (r.ask S p k (r.now co ticks) w (some r.lastBorrow)).1.timestampCpuLent = r.shm.timestampCpuLent :=
      (hsince ∅ _ ⟨fun _ => nofun, rfl⟩).2
    -- the time is stored only after an attempt that found nothing to take
    have hlast : (r.next S p (.ask k co ticks w)).lastBorrow = r.lastBorrow ∨
        ((r.next S p (.ask k co ticks w)).lastBorrow = r.clock + ticks + 1 ∧ NothingIn S W p r.shm) := by
      have hq₀ : ({ r.shm with tasks := [] } : Shdata).queuesEnabled = false := h.queues
      have hkeep : (r.ask S p k (r.now co ticks) w (some r.lastBorrow)).2.lastBorrow = some r.lastBorrow →
          (r.next S p (.ask k co ticks w)).lastBorrow = r.lastBorrow := fun heq => by
        show Option.getD _ r.lastBorrow = _
        rw [heq]
        rfl
      by_cases hearly : r.Early p k w
      · refine .inl (hkeep ?_)
        unfold Shortcut.ask
        rw [Ask.exec_early hearly]
      rcases hoffered.resolve_left hearly with hno | hof
      · have hout : (r.ask S p k (r.now co ticks) w (some r.lastBorrow)).2.lastBorrow = some r.lastBorrow ∨
            (r.ask S p k (r.now co ticks) w (some r.lastBorrow)).2.lastBorrow = some (r.clock + ticks + 1) :=
          Ask.exec_lastBorrow
        rcases hout with heq | heq
        · exact .inl (hkeep heq)
        · refine .inr ⟨?_, hno⟩
          show Option.getD _ r.lastBorrow = _
          rw [heq]
          rfl
      · exact .inl (hkeep (Ask.exec_offered hp0 hq₀ hof hearly))
    refine ⟨hflags.initialized.trans h.initialized, hflags.queues.trans h.queues, ?_, ?_, fun hlt => ?_⟩
    · rcases hlast with heq | ⟨heq, -⟩
      · rwa [heq]
      · rw [heq]
        omega
    · show _ ≤ r.clock + ticks + 1
      rcases hlast with heq | ⟨heq, -⟩
      · rw [heq]
        omega
      · rw [heq]
    · have hno : NothingIn S W p r.shm := by
        rcases hlast with heq | ⟨-, hno⟩
        · rw [heq] at hlt
          exact hnothing (htime ▸ hlt)
        · exact hno
      exact (hsince W _ ⟨hno, rfl⟩).1
  | enableDlb =>
    refine ⟨h.initialized, h.queues, le_refl 0, hnonneg.trans hlate, fun hlt => hnothing ?_⟩
    exact lt_of_lt_of_le hlt hnonneg
  | op co ticks pid op =>
    obtain ⟨hq0, hop⟩ := he
    have hflags : SameFlags r.shm (op.exec S (r.now co ticks) pid r.shm).1 := by
      rcases exec_asks (S := S) (q := pid) h.initialized (r.now co ticks) op with hasks | ⟨hinit, -⟩
      · exact hasks.flags
      · exact absurd hinit hop
    refine ⟨hflags.initialized.trans h.initialized, hflags.queues.trans h.queues, hnonneg, ?_, fun hlt => ?_⟩
    · show r.lastBorrow ≤ r.clock + ticks + 1
      omega
    by_cases hopening : op.Opening
    · exact hsafe hopening hlt
    have hstep : (op.exec S (r.now co ticks) pid r.shm).1.timestampCpuLent = (r.now co ticks).now ∨
        ∀ (W : Set ℕ) (t : ℤ), NothingSince S W p t r.shm →
          NothingSince S W p t (op.exec S (r.now co ticks) pid r.shm).1 := exec_since hq0 hopening
    rcases hstep with hnow | hsince
    · -- the new time is later than `last_borrow`
      have hnow : (r.next S p (.op co ticks pid op)).shm.timestampCpuLent = r.clock + ticks + 1 := hnow
      rw [hnow] at hlt
      have hlt : r.clock + ticks + 1 < r.lastBorrow := hlt
      omega
    · have htime : (op.exec S (r.now co ticks) pid r.shm).1.timestampCpuLent = r.shm.timestampCpuLent :=
        (hsince ∅ _ ⟨fun _ => nofun, rfl⟩).2
      exact (hsince W _ ⟨hnothing (htime ▸ hlt), rfl⟩).1

theorem allOwned_guested : ∀ {cpus : List ℕ}, OwnedFirst p d cpus → allOwnedCpusAreGuested d.nodeInfo p cpus = true →
    ∀ c ∈ cpus, (d.nodeInfo c).owner = p → (d.nodeInfo c).guest = p
  | [], _, _ => nofun
  | a :: rest, hfirst, hall => by
    obtain ⟨ha, hrest⟩ := pairwise_cons.mp hfirst
    unfold allOwnedCpusAreGuested at hall
    intro c hc ho
    split at hall
    · rename_i hown
      -- behind a CPU of another process there is none of its own
      rcases mem_cons.mp hc with rfl | hmem
      · exact absurd ho hown
      · exact absurd (ha c hmem ho) hown
    split at hall
    · cases hall
    · rename_i hg
      rcases mem_cons.mp hc with rfl | hmem
      · exact not_not.mp hg
      · exact allOwned_guested hrest hall c hmem ho

theorem Shortcut.Kept.faithful (hp0 : p ≠ 0) (h : r.Kept S p W) (e : ShortcutEvent) (hsafe : r.Safe S p W e) :
    r.Faithful S p e := by
  cases e with
  | ask k co ticks w =>
    obtain ⟨hw, -, hfirst⟩ := hsafe
    intro hstale x
    have hnewer : r.shm.timestampCpuLent < r.lastBorrow := by
      unfold Shortcut.Stale Ask.stale at hstale
      cases k with
      | acquire =>
        simp only [Bool.and_eq_true] at hstale
        exact of_decide_eq_true hstale.1
      | borrow => exact of_decide_eq_true hstale
    have hno : NothingIn S W p { r.shm with tasks := [] } := (h.nothing hnewer).congr rfl rfl
    refine Ask.exec_nothing (d := { r.shm with tasks := [] }) (w := { w with lastBorrow := none }) hp0 h.queues hno
      ⟨hw.array, hw.nodes⟩ (fun hk hsmt => ?_) x
    subst hk
    unfold Shortcut.Stale Ask.stale at hstale
    simp only [Bool.and_eq_true] at hstale
    exact allOwned_guested (hfirst rfl hsmt) hstale.2
  | enableDlb => trivial
  | op co ticks pid op => trivial

end Run

/-- **The shortcut hides no CPU.** Processes run in polling mode on memory that is initialized; one of them, `p`, asks for
CPUs with one `last_borrow`, which is not newer than the last lend at first. Let `W` be the CPUs that it asks for. If
every attempt that is made while one of them can be taken is offered one, if with SMT an acquire lists the CPUs of its
own first, and if the CPUs that are returned, or come free with a new process mask, while the shortcut holds cannot be
taken, then at each call that the shortcut makes return the same call without it would have changed no guest. -/
theorem shortcut_faithful (S : System) {p : Pid} (hp0 : p ≠ 0) (W : Set ℕ) {start : Shortcut}
    (hinit : start.shm.initialized = true) (hpolling : start.shm.queuesEnabled = false) (h0 : 0 ≤ start.lastBorrow)
    (hclock : start.lastBorrow ≤ start.clock) (hlast : start.lastBorrow ≤ start.shm.timestampCpuLent)
    {events : List ShortcutEvent} (hevents : ∀ e ∈ events, e.Polling)
    (hsafe : Lib.Along (Shortcut.next S p) (fun r e => r.Safe S p W e) start events) :
    Lib.Along (Shortcut.next S p) (Shortcut.Faithful S p) start events :=
  (Lib.Along.invariant (R := ShortcutEvent.Polling) (I := Shortcut.Kept S p W)
    (fun _ e h he hsafe => h.next hp0 e he hsafe) (fun _ e h _ hsafe => h.faithful hp0 e hsafe) start events
    ⟨hinit, hpolling, h0, hclock, fun hlt => absurd hlt (not_lt.mpr hlast)⟩ hevents hsafe).1

/-- Two processes with a core each run LeWI; `2` has not borrowed yet. -/
def shortcutStart : Shortcut := { shm := (bothJoined.foldl (AsyncNode.next twoCores) {}).shm, lastBorrow := 0, clock := 0 }

/-- `1` lends its core, `2` takes it, and then finds nothing twice. -/
def takeThenNothing : List ShortcutEvent :=
  [.op {} 0 1 (.lewi (.lendCpu 0)), .ask .borrow {} 0 { cpusPriorityArray := [1, 0] },
    .ask .borrow {} 0 { cpusPriorityArray := [1, 0] }, .ask .acquire {} 0 { cpusPriorityArray := [1, 0] }]

theorem shortcut_faithful_twoCores :
    Lib.Along (Shortcut.next twoCores 2) (Shortcut.Faithful twoCores 2) shortcutStart takeThenNothing := by
  have hpolling : ∀ e ∈ takeThenNothing, e.Polling := by
    simp [takeThenNothing, ShortcutEvent.Polling]
  have hwithin : ∀ w : Wish, w.cpusPriorityArray = [1, 0] → w.lewiAffinity = .auto →
      w.Within twoCores { c | c < 2 } := by
    intro w hw haff
    refine ⟨fun c hc => ?_, fun hspread => absurd (haff.symm.trans hspread) nofun⟩
    rw [hw] at hc
    simp only [mem_cons, not_mem_nil, or_false] at hc
    show c < 2
    omega
  refine shortcut_faithful twoCores two_ne_zero { c | c < 2 } (by decide) (by decide) (by decide)
    (by decide) (by decide) hpolling ⟨fun h => h.elim, ⟨hwithin _ rfl rfl, .inr (.inr ?_), nofun⟩,
      ⟨hwithin _ rfl rfl, .inr (.inl ?_), nofun⟩, ⟨hwithin _ rfl rfl, .inl ?_, fun _ hsmt => ?_⟩, trivial⟩
  · refine ⟨by decide, 0, by decide, by decide, 0, by decide, nofun, by decide, by decide⟩
  · show ∀ c < 2, _
    decide
  · show _ = true
    decide
  · exact absurd hsmt (by decide)

/-- **A borrow on another mask.** `1` lends its core; a borrow of `2` on its own CPU finds nothing and stores the time,
and the next one returns early, although it asks for the CPU that is lent and idle. -/
theorem other_mask_hidden : ¬∀ events : List ShortcutEvent, (∀ e ∈ events, e.Polling) →
    Lib.Along (Shortcut.next twoCores 2) (Shortcut.Faithful twoCores 2) shortcutStart events := by
  intro hall
  have hrun := hall [.op {} 0 1 (.lewi (.lendCpu 0)), .ask .borrow {} 0 { cpusPriorityArray := [1] },
    .ask .borrow {} 0 { cpusPriorityArray := [0] }] (by simp [ShortcutEvent.Polling])
  have hsame := hrun.2.2.1 (by unfold Shortcut.Stale; decide) 0
  exact absurd hsame (by decide)

end Dlb.Cpuinfo

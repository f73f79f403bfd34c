import Dlb.Cpuinfo.Shmem

/-!
# The helper sets of cpuinfo in polling mode

`free_cpus` and `occupied_cores` are redundant. `Consistent` is what keeps them exact when the request queues are off:
next to the two equalities, a core has one owner, a busy CPU has an owner and a guest, a disabled CPU has neither.

* `update_occupied_cores` after a change of one CPU (`exact_update`, `mem_occupiedUpdate`);
* a change of one CPU that does not touch its owner keeps the invariant (`Consistent.change`), and every operation on a
  CPU is one: `lendCpu_consistent`, `reclaimCpu_consistent`, `acquireCpu_consistent`, `borrowCpu_consistent`,
  `returnCpu_consistent`.
-/

namespace Dlb.Cpuinfo

open Function

variable {S : System}

/-! ## What the source takes for a core -/

/-- The core of a CPU: with SMT that of the hardware, without it the CPU alone. -/
def coreOf (S : System) (smt : Bool) (c : ℕ) : CpuSet := if smt then coreMask S c else {c}

theorem coreMask_of_mem {core : CpuSet} (hk : core ∈ S.cores) {c : ℕ} (hc : c ∈ core) : coreMask S c = core := by
  unfold coreMask
  rw [muGetCoreMask_of_mem hk hc, Option.getD_some]

theorem coreMask_mem {c e : ℕ} (h : e ∈ coreMask S c) : coreMask S c ∈ S.cores ∧ c ∈ coreMask S c := by
  unfold coreMask muGetCoreMask at h ⊢
  split at h
  · simp at h
  · rename_i hc
    rw [if_neg hc]
    cases hf : S.cores.find? (c ∈ ·) with
    | none => rw [hf] at h; simp at h
    | some core => exact ⟨List.mem_of_find?_eq_some hf, by simpa using List.find?_some hf⟩

section CoreOf

variable {smt : Bool} {c e x : ℕ}

theorem coreOf_eq (h : e ∈ coreOf S smt c) : coreOf S smt e = coreOf S smt c := by
  unfold coreOf at h ⊢
  cases smt with
  | false => simp at h ⊢; exact h
  | true =>
    obtain ⟨hk, -⟩ := coreMask_mem h
    exact coreMask_of_mem hk h

theorem self_mem_coreOf (h : e ∈ coreOf S smt c) : c ∈ coreOf S smt c := by
  unfold coreOf at h ⊢
  cases smt with
  | false => simp
  | true => exact (coreMask_mem h).2

theorem mem_coreOf_self {core : CpuSet} (hk : core ∈ S.cores) (hc : c ∈ core) : c ∈ coreOf S smt c := by
  unfold coreOf
  cases smt with
  | false => simp
  | true => rwa [if_pos rfl, coreMask_of_mem hk hc]

theorem coreOf_symm (h : e ∈ coreOf S smt c) : c ∈ coreOf S smt e := by
  rw [coreOf_eq h]
  exact self_mem_coreOf h

theorem notMem_coreOf (hx : x ∉ coreOf S smt c) (h : e ∈ coreOf S smt x) : e ∉ coreOf S smt c := fun he =>
  hx (coreOf_eq he ▸ coreOf_symm h)

theorem coreMask_lt_bits (h : e ∈ coreMask S c) : e < S.bits := System.lt_bits (S.covered _ (coreMask_mem h).1 h)

theorem coreOf_of_whole {mask : CpuSet} (hm : WholeCores S mask) (hc : c ∈ mask) :
    c ∈ coreOf S smt c ∧ coreOf S smt c ⊆ mask := by
  obtain ⟨core, hk, hck, hsub⟩ := hm c hc
  unfold coreOf
  cases smt with
  | false => simpa using hc
  | true =>
    rw [if_pos rfl, coreMask_of_mem hk hck]
    exact ⟨hck, hsub⟩

end CoreOf

/-! ## Occupied cores -/

/-- The guest of the CPU is neither nobody nor its owner. -/
def CpuInfo.Foreign (i : CpuInfo) : Prop := i.owner ≠ 0 ∧ i.guest ≠ 0 ∧ i.guest ≠ i.owner

def CpuInfo.Idle (i : CpuInfo) : Prop := i.state = .lent ∧ i.guest = 0

instance (i : CpuInfo) : Decidable i.Foreign := inferInstanceAs (Decidable (_ ∧ _))

instance (i : CpuInfo) : Decidable i.Idle := inferInstanceAs (Decidable (_ ∧ _))

/-- The cores with a CPU that has a foreign guest. -/
def Occupied (S : System) (smt : Bool) (nodeInfo : ℕ → CpuInfo) (occupied : CpuSet) : Prop :=
  ∀ x, x ∈ occupied ↔ ∃ e ∈ coreOf S smt x, (nodeInfo e).Foreign

section Update

variable {d : Shdata} {owner : Pid} {c x : ℕ}

theorem mem_muOr_self {m k : CpuSet} (hk : ∀ e ∈ k, e < S.bits) : x ∈ muOr S m m k ↔ x ∈ m ∨ x ∈ k := by
  simp only [muOr, System.write, Finset.mem_union, Finset.mem_filter]
  constructor
  · tauto
  · rintro (h | h)
    · rcases Nat.lt_or_ge x S.bits with hx | hx <;> tauto
    · exact Or.inl ⟨Or.inr h, hk x h⟩

theorem mem_muSubtract_self {m k : CpuSet} (hk : ∀ e ∈ k, e < S.bits) : x ∈ muSubtract S m m k ↔ x ∈ m ∧ x ∉ k := by
  simp only [muSubtract, System.write, Finset.mem_union, Finset.mem_filter, Finset.mem_sdiff]
  constructor
  · rintro (⟨h, -⟩ | ⟨h, hx⟩)
    · exact h
    · exact ⟨h, fun hxk => absurd (hk x hxk) (by omega)⟩
  · intro h
    rcases Nat.lt_or_ge x S.bits with hx | hx <;> tauto

theorem mem_occupiedUpdate_of_notMem (hx : x ∉ coreOf S d.hwHasSmt c) :
    x ∈ occupiedUpdate S d owner c ↔ x ∈ d.occupiedCores := by
  unfold coreOf at hx
  unfold occupiedUpdate
  cases hs : d.hwHasSmt with
  | true =>
    rw [hs, if_pos rfl] at hx
    have hor := mem_muOr_self (x := x) (m := d.occupiedCores) fun e => coreMask_lt_bits (S := S) (c := c)
    have hsub := mem_muSubtract_self (x := x) (m := d.occupiedCores) fun e => coreMask_lt_bits (S := S) (c := c)
    split_ifs <;> tauto
  | false =>
    rw [hs, if_neg Bool.false_ne_true, Finset.mem_singleton] at hx
    rw [if_neg Bool.false_ne_true]
    split_ifs <;> simp [hx]

theorem mem_occupiedUpdate (hx : x ∈ coreOf S d.hwHasSmt c) (hu : x ∈ d.occupiedCores ↔ c ∈ d.occupiedCores) :
    x ∈ occupiedUpdate S d owner c ↔
      cpuIsOccupied d owner c ∨ (c ∈ d.occupiedCores ∧ coreIsOccupied S d owner c) := by
  unfold coreOf at hx
  unfold occupiedUpdate
  cases hs : d.hwHasSmt with
  | true =>
    rw [hs, if_pos rfl] at hx
    have hor := mem_muOr_self (x := x) (m := d.occupiedCores) fun e => coreMask_lt_bits (S := S) (c := c)
    have hsub := mem_muSubtract_self (x := x) (m := d.occupiedCores) fun e => coreMask_lt_bits (S := S) (c := c)
    split_ifs <;> tauto
  | false =>
    rw [hs, if_neg Bool.false_ne_true, Finset.mem_singleton] at hx
    rw [if_neg Bool.false_ne_true]
    subst hx
    split_ifs with h
    · simp [h]
    · simp only [cpuIsOccupied, decide_eq_true_eq] at h
      simp [coreIsOccupied, cpuIsOccupied, hs]
      tauto

theorem mem_occupiedUpdate_left (hx : x ∈ coreOf S d.hwHasSmt c) (hc : c ∈ d.occupiedCores)
    (hno : cpuIsOccupied d owner c = false) : x ∈ occupiedUpdate S d owner c ↔ coreIsOccupied S d owner c := by
  unfold coreOf at hx
  unfold occupiedUpdate
  rw [hno]
  cases hs : d.hwHasSmt with
  | true =>
    rw [hs, if_pos rfl] at hx
    have hor := mem_muOr_self (x := x) (m := d.occupiedCores) fun e => coreMask_lt_bits (S := S) (c := c)
    have hsub := mem_muSubtract_self (x := x) (m := d.occupiedCores) fun e => coreMask_lt_bits (S := S) (c := c)
    split_ifs <;> tauto
  | false =>
    rw [hs, if_neg Bool.false_ne_true, Finset.mem_singleton] at hx
    simp only [cpuIsOccupied, decide_eq_false_iff_not] at hno
    simp [hx, coreIsOccupied, hs]
    tauto

theorem occupiedUpdate_of_occupied (hcpu : cpuIsOccupied d owner c) (hc : c ∈ d.occupiedCores) :
    occupiedUpdate S d owner c = d.occupiedCores := by
  unfold occupiedUpdate
  rw [if_pos hcpu, if_neg (not_not.mpr hc), if_pos hcpu, Finset.insert_eq_of_mem hc, ite_self]

theorem mem_occupiedUpdate_keep (hx : x ∈ d.occupiedCores) (hc : c ∈ d.occupiedCores)
    (ho : coreIsOccupied S d owner c) : x ∈ occupiedUpdate S d owner c := by
  have hor := mem_muOr_self (x := x) (m := d.occupiedCores) fun e => coreMask_lt_bits (S := S) (c := c)
  unfold occupiedUpdate
  cases hs : d.hwHasSmt with
  | true =>
    simp only [if_true, hc, not_true_eq_false, if_false, ho]
    split_ifs
    · exact hx
    · exact hor.mpr (.inl hx)
  | false =>
    have hcpu : cpuIsOccupied d owner c := by
      unfold coreIsOccupied at ho
      unfold cpuIsOccupied
      split at ho
      · cases ho
      · rename_i hown
        simpa [hs, hown] using ho
    rw [if_neg Bool.false_ne_true, if_pos hcpu]
    exact Finset.mem_insert_of_mem hx

theorem coreIsOccupied_iff : coreIsOccupied S d owner c ↔
    ∃ e ∈ coreOf S d.hwHasSmt c, owner ≠ 0 ∧ (d.nodeInfo e).guest ≠ 0 ∧ (d.nodeInfo e).guest ≠ owner := by
  unfold coreIsOccupied coreOf
  by_cases ho : owner = 0
  · simp [ho]
  · cases d.hwHasSmt <;> simp [ho]

end Update

section Note

variable {d : Shdata} {c : ℕ}

theorem noteOccupied_of_mem (hc : c ∈ d.occupiedCores) : noteOccupied S d c = d := by
  unfold noteOccupied
  rw [if_neg (not_not.mpr hc)]

@[simp] theorem noteOccupiedOwned_info : (noteOccupiedOwned S d c).nodeInfo = d.nodeInfo := by
  unfold noteOccupiedOwned noteOccupied
  split_ifs <;> rfl

@[simp] theorem noteOccupiedOwned_initialized : (noteOccupiedOwned S d c).initialized = d.initialized := by
  unfold noteOccupiedOwned noteOccupied
  split_ifs <;> rfl

@[simp] theorem noteOccupiedOwned_queues : (noteOccupiedOwned S d c).queuesEnabled = d.queuesEnabled := by
  unfold noteOccupiedOwned noteOccupied
  split_ifs <;> rfl

@[simp] theorem noteOccupiedOwned_smt : (noteOccupiedOwned S d c).hwHasSmt = d.hwHasSmt := by
  unfold noteOccupiedOwned noteOccupied
  split_ifs <;> rfl

@[simp] theorem noteOccupiedOwned_free : (noteOccupiedOwned S d c).freeCpus = d.freeCpus := by
  unfold noteOccupiedOwned noteOccupied
  split_ifs <;> rfl

end Note

/-! ## The invariant -/

/-- The entry of a CPU: a busy one has an owner and a guest, a disabled one has neither, and both are processes of
`attached`. -/
structure CpuInfo.Sound (attached : Finset Pid) (i : CpuInfo) : Prop where
  busy : i.state = .busy → i.owner ≠ 0 ∧ i.guest ≠ 0
  disabled : i.state = .disabled → i.owner = 0 ∧ i.guest = 0
  owner : i.owner ≠ 0 → i.owner ∈ attached
  guest : i.guest ≠ 0 → i.guest ∈ attached

structure Consistent (S : System) (attached : Finset Pid) (d : Shdata) : Prop where
  initialized : d.initialized = true
  smt : d.hwHasSmt = muSystemHasSmt S
  queues : d.queuesEnabled = false
  free : ∀ c, c ∈ d.freeCpus ↔ (d.nodeInfo c).Idle
  occupied : Occupied S d.hwHasSmt d.nodeInfo d.occupiedCores
  info : ∀ c, (d.nodeInfo c).Sound attached
  core : ∀ c, ∀ e ∈ coreOf S d.hwHasSmt c, (d.nodeInfo e).owner = (d.nodeInfo c).owner
  owned : ∀ c, (d.nodeInfo c).owner ≠ 0 → ∃ core ∈ S.cores, c ∈ core
  size : ∀ c, (d.nodeInfo c).state ≠ .disabled → c < S.size

theorem Consistent.self_mem {attached : Finset Pid} {d : Shdata} (h : Consistent S attached d) {c : ℕ}
    (ho : (d.nodeInfo c).owner ≠ 0) : c ∈ coreOf S d.hwHasSmt c := by
  obtain ⟨core, hk, hc⟩ := h.owned c ho
  exact mem_coreOf_self hk hc

section Change

variable {attached : Finset Pid} {d d' : Shdata} {c : ℕ} {i : CpuInfo}

theorem exact_same (h : Consistent S attached d) (hf : i.Foreign ↔ (d.nodeInfo c).Foreign) :
    Occupied S d.hwHasSmt (update d.nodeInfo c i) d.occupiedCores := by
  intro x
  rw [h.occupied x]
  refine exists_congr fun e => and_congr_right fun _ => ?_
  by_cases he : e = c
  · subst he
    rw [update_self, hf]
  · rw [update_of_ne he]

theorem exact_update (h : Consistent S attached d) (ho : i.owner = (d.nodeInfo c).owner)
    (hinfo : d'.nodeInfo = update d.nodeInfo c i) (hocc : d'.occupiedCores = d.occupiedCores)
    (hsmt : d'.hwHasSmt = d.hwHasSmt) :
    Occupied S d.hwHasSmt (update d.nodeInfo c i) (occupiedUpdate S d' i.owner c) := by
  intro x
  rw [← hsmt]
  by_cases hx : x ∈ coreOf S d'.hwHasSmt c
  · have hxd : x ∈ coreOf S d.hwHasSmt c := hsmt ▸ hx
    -- the bits of the core are equal since they are exact
    have hu : x ∈ d'.occupiedCores ↔ c ∈ d'.occupiedCores := by
      rw [hocc, h.occupied x, h.occupied c, coreOf_eq hxd]
    rw [mem_occupiedUpdate hx hu, coreOf_eq hx, hocc, h.occupied c, ← hsmt]
    have hcore : ∀ e ∈ coreOf S d'.hwHasSmt c, (update d.nodeInfo c i e).owner = i.owner := by
      intro e he
      by_cases hec : e = c
      · rw [hec, update_self]
      · rw [update_of_ne hec, ho]
        exact h.core c e (hsmt ▸ he)
    constructor
    · rintro (hi | ⟨-, hi⟩)
      · refine ⟨c, self_mem_coreOf hx, ?_⟩
        simpa [cpuIsOccupied, hinfo, CpuInfo.Foreign, and_left_comm] using hi
      · obtain ⟨e, he, hg⟩ := coreIsOccupied_iff.mp hi
        refine ⟨e, he, ?_⟩
        rw [CpuInfo.Foreign, hcore e he, ← hinfo]
        exact hg
    · rintro ⟨e, he, hf⟩
      by_cases hec : e = c
      · subst hec
        refine Or.inl ?_
        simpa [cpuIsOccupied, hinfo, CpuInfo.Foreign, and_left_comm] using hf
      · refine Or.inr ⟨⟨e, he, by rwa [update_of_ne hec] at hf⟩, ?_⟩
        refine coreIsOccupied_iff.mpr ⟨e, he, ?_⟩
        rw [CpuInfo.Foreign, hcore e he, ← hinfo] at hf
        exact hf
  · rw [mem_occupiedUpdate_of_notMem hx, hocc, h.occupied x, hsmt]
    refine exists_congr fun e => and_congr_right fun he => ?_
    rw [update_of_ne]
    rintro rfl
    exact hx (hsmt ▸ coreOf_symm he)

/-- `d'` is `d` with another entry for `c`, and `free_cpus` differs at `c` at most. -/
structure Changes (d d' : Shdata) (c : ℕ) (i : CpuInfo) : Prop where
  info : d'.nodeInfo = update d.nodeInfo c i
  initialized : d'.initialized = d.initialized
  queues : d'.queuesEnabled = d.queuesEnabled
  smt : d'.hwHasSmt = d.hwHasSmt
  free : ∀ x, x ≠ c → (x ∈ d'.freeCpus ↔ x ∈ d.freeCpus)

theorem Consistent.change (h : Consistent S attached d) (hd : Changes d d' c i) (hi : i.Sound attached)
    (ho : i.owner = (d.nodeInfo c).owner) (hs : (d.nodeInfo c).state ≠ .disabled) (hfree : c ∈ d'.freeCpus ↔ i.Idle)
    (hocc : Occupied S d.hwHasSmt (update d.nodeInfo c i) d'.occupiedCores) : Consistent S attached d' := by
  have howner : ∀ x, (d'.nodeInfo x).owner = (d.nodeInfo x).owner := by
    intro x
    rw [hd.info]
    by_cases hx : x = c
    · rw [hx, update_self, ho]
    · rw [update_of_ne hx]
  constructor
  · exact hd.initialized.trans h.initialized
  · exact hd.smt.trans h.smt
  · exact hd.queues.trans h.queues
  · intro x
    rw [hd.info]
    by_cases hx : x = c
    · rw [hx, update_self, hfree]
    · rw [update_of_ne hx, hd.free x hx, h.free x]
  · rw [hd.smt, hd.info]
    exact hocc
  · intro x
    rw [hd.info]
    by_cases hx : x = c
    · rwa [hx, update_self]
    · rw [update_of_ne hx]
      exact h.info x
  · intro x e he
    rw [howner, howner]
    exact h.core x e (hd.smt ▸ he)
  · intro x hx
    rw [howner] at hx
    exact h.owned x hx
  · intro x hx
    rw [hd.info] at hx
    by_cases hxc : x = c
    · rw [hxc]
      exact h.size c hs
    · rw [update_of_ne hxc] at hx
      exact h.size x hx

theorem Consistent.congr (h : Consistent S attached d) (hinit : d'.initialized = d.initialized)
    (hq : d'.queuesEnabled = d.queuesEnabled) (hsmt : d'.hwHasSmt = d.hwHasSmt) (hinfo : d'.nodeInfo = d.nodeInfo) (hfree : d'.freeCpus = d.freeCpus)
    (hocc : d'.occupiedCores = d.occupiedCores) : Consistent S attached d' := by
  constructor
  · exact hinit.trans h.initialized
  · exact hsmt.trans h.smt
  · exact hq.trans h.queues
  · rw [hfree, hinfo]
    exact h.free
  · rw [hsmt, hinfo, hocc]
    exact h.occupied
  · rw [hinfo]
    exact h.info
  · rw [hsmt, hinfo]
    exact h.core
  · rw [hinfo]
    exact h.owned
  · rw [hinfo]
    exact h.size

end Change

/-! ## Operations on one CPU -/

section Ops

variable {attached : Finset Pid} {d : Shdata} {pid : Pid} {c : ℕ}

theorem Consistent.enabled (h : Consistent S attached d) (hp : (d.nodeInfo c).owner ≠ 0 ∨ (d.nodeInfo c).guest ≠ 0) :
    (d.nodeInfo c).state ≠ .disabled := by
  intro hs
  have := (h.info c).disabled hs
  tauto

theorem Consistent.take_own (h : Consistent S attached d) (hp : pid ∈ attached) (hp0 : pid ≠ 0)
    (ho : (d.nodeInfo c).owner = pid) (hg : (d.nodeInfo c).guest = 0) :
    Consistent S attached
      (((d.set c { d.nodeInfo c with state := .busy, guest := pid }).push .enableCpu pid c).clrFree c) := by
  refine h.change (i := { d.nodeInfo c with state := .busy, guest := pid }) ⟨rfl, rfl, rfl, rfl, ?_⟩ ⟨?_, ?_, ?_, ?_⟩ rfl
    (h.enabled (Or.inl (ho ▸ hp0))) ?_ (exact_same h ?_)
  · intro x hx
    simp [Shdata.clrFree, Shdata.push, Shdata.set, hx]
  · exact fun _ => ⟨ho ▸ hp0, hp0⟩
  · exact nofun
  · exact fun _ => ho ▸ hp
  · exact fun _ => hp
  · simp [Shdata.clrFree, CpuInfo.Idle]
  · simp [CpuInfo.Foreign, ho, hg]

theorem Consistent.claim (h : Consistent S attached d) (hp0 : pid ≠ 0) (ho : (d.nodeInfo c).owner = pid)
    (hg : (d.nodeInfo c).guest ≠ 0) :
    Consistent S attached (d.set c { d.nodeInfo c with state := .busy }) := by
  have hs := h.enabled (c := c) (Or.inr hg)
  refine h.change (i := { d.nodeInfo c with state := .busy }) ⟨rfl, rfl, rfl, rfl, fun _ _ => Iff.rfl⟩
    ⟨?_, nofun, (h.info c).owner, (h.info c).guest⟩ rfl hs ?_ (exact_same h Iff.rfl)
  · exact fun _ => ⟨ho ▸ hp0, hg⟩
  · show c ∈ d.freeCpus ↔ _
    rw [h.free]
    simp [CpuInfo.Idle, hg]

theorem reclaimCpu_consistent (h : Consistent S attached d) (hp : pid ∈ attached) (hp0 : pid ≠ 0) :
    Consistent S attached (reclaimCpu pid d c).1 := by
  unfold reclaimCpu
  dsimp only
  split
  · rename_i ho
    split
    · rename_i hg
      exact h.claim hp0 ho (hg ▸ hp0)
    · split
      · rename_i hg
        exact h.take_own hp hp0 ho hg
      · rename_i hg
        exact (h.claim hp0 ho hg).congr rfl rfl rfl rfl rfl rfl
  · exact h

theorem exact_note (h : Consistent S attached d) {d' : Shdata} {i : CpuInfo} (ho : i.owner = (d.nodeInfo c).owner)
    (hg : (d.nodeInfo c).guest = 0) (hinfo : d'.nodeInfo = update d.nodeInfo c i)
    (hocc : d'.occupiedCores = d.occupiedCores) (hsmt : d'.hwHasSmt = d.hwHasSmt) :
    Occupied S d.hwHasSmt (update d.nodeInfo c i) (noteOccupiedOwned S d' c).occupiedCores := by
  have hold : ¬(d.nodeInfo c).Foreign := fun hf => hf.2.1 hg
  have hinfoc : d'.nodeInfo c = i := by rw [hinfo, update_self]
  unfold noteOccupiedOwned noteOccupied
  rw [hinfoc]
  split
  · split
    · exact exact_update h ho hinfo hocc hsmt
    · rename_i hc
      rw [hocc] at hc ⊢
      intro x
      rw [h.occupied x]
      constructor
      · rintro ⟨e, he, hf⟩
        have hec : e ≠ c := fun hec => hold (hec ▸ hf)
        exact ⟨e, he, by rwa [update_of_ne hec]⟩
      · rintro ⟨e, he, hf⟩
        by_cases hec : e = c
        · subst hec
          rw [← coreOf_eq he]
          exact (h.occupied e).mp (not_not.mp hc)
        · rw [update_of_ne hec] at hf
          exact ⟨e, he, hf⟩
  · rename_i hi
    rw [hocc]
    refine exact_same h (iff_of_false (fun hf => hi hf.1) hold)

theorem Consistent.take_lent (h : Consistent S attached d) (hp : pid ∈ attached) (hp0 : pid ≠ 0)
    (hs : (d.nodeInfo c).state = .lent) {d' : Shdata} (hd : Changes d d' c { d.nodeInfo c with guest := pid })
    (hfree : c ∉ d'.freeCpus)
    (hocc : Occupied S d.hwHasSmt (update d.nodeInfo c { d.nodeInfo c with guest := pid }) d'.occupiedCores) :
    Consistent S attached d' := by
  refine h.change hd ⟨?_, ?_, (h.info c).owner, fun _ => hp⟩ rfl (by simp [hs]) ?_ hocc
  · simp [hs]
  · simp [hs]
  · simp [hfree, CpuInfo.Idle, hp0]

theorem acquireCpu_consistent (h : Consistent S attached d) (hp : pid ∈ attached) (hp0 : pid ≠ 0) :
    Consistent S attached (acquireCpu S pid d c).1 := by
  unfold acquireCpu
  dsimp only
  split
  · exact h
  split
  · rename_i hgp ho
    split
    · rename_i hg
      exact h.take_own hp hp0 ho hg
    · rename_i hg
      have hclaim := h.claim hp0 ho hg
      have hc : c ∈ d.occupiedCores := by
        refine (h.occupied c).mpr ⟨c, h.self_mem (ho ▸ hp0), ho ▸ hp0, hg, ?_⟩
        rw [ho]
        exact hgp
      rw [noteOccupied_of_mem]
      · exact hclaim.congr rfl rfl rfl rfl rfl rfl
      · exact hc
  split
  · rename_i hav
    obtain ⟨hg, hs, -⟩ := hav
    refine h.take_lent hp hp0 hs ⟨?_, ?_, ?_, ?_, ?_⟩ ?_ (exact_note h rfl hg rfl rfl rfl)
    · exact noteOccupiedOwned_info
    · exact noteOccupiedOwned_initialized
    · exact noteOccupiedOwned_queues
    · exact noteOccupiedOwned_smt
    · intro x hx
      simp [Shdata.clrFree, noteOccupiedOwned_free, Shdata.push, Shdata.set, hx]
    · simp [Shdata.clrFree]
  split
  · rename_i hq
    rw [h.queues] at hq
    cases hq
  · split <;> exact h

theorem borrowCpu_consistent (h : Consistent S attached d) (hp : pid ∈ attached) (hp0 : pid ≠ 0) :
    Consistent S attached (borrowCpu S pid d c).1 := by
  unfold borrowCpu
  dsimp only
  split
  · exact h
  split
  · rename_i hav
    obtain ⟨hg, -⟩ := hav
    split
    · rename_i ho
      exact h.take_own hp hp0 ho hg
    split
    · rename_i hs
      refine h.take_lent hp hp0 hs ⟨?_, ?_, ?_, ?_, ?_⟩ ?_ (exact_note h rfl hg rfl rfl rfl)
      · exact noteOccupiedOwned_info
      · exact noteOccupiedOwned_initialized
      · exact noteOccupiedOwned_queues
      · exact noteOccupiedOwned_smt
      · intro x hx
        simp [Shdata.clrFree, noteOccupiedOwned_free, Shdata.push, Shdata.set, hx]
      · simp [Shdata.clrFree, noteOccupiedOwned_free]
    · exact h
  · exact h

theorem returnCpu_consistent (h : Consistent S attached d) (hp0 : pid ≠ 0) :
    Consistent S attached (returnCpu S pid d c).1 := by
  unfold returnCpu
  dsimp only
  split
  · exact h
  rename_i hret
  have hg : (d.nodeInfo c).guest = pid := by tauto
  have hs := h.enabled (c := c) (Or.inr (hg ▸ hp0))
  split
  · rename_i hb
    refine h.change (i := { d.nodeInfo c with guest := (d.nodeInfo c).owner }) ⟨rfl, rfl, rfl, rfl, fun _ _ => Iff.rfl⟩
      ⟨?_, ?_, (h.info c).owner, (h.info c).owner⟩ rfl hs ?_ (exact_update h rfl rfl rfl rfl)
    · exact fun _ => ⟨((h.info c).busy hb).1, ((h.info c).busy hb).1⟩
    · simp [hb]
    · show c ∈ d.freeCpus ↔ _
      rw [h.free]
      simp [CpuInfo.Idle, hb]
  · rename_i hb
    have hl : (d.nodeInfo c).state = .lent := by
      cases hst : (d.nodeInfo c).state with
      | disabled => exact absurd hst hs
      | busy => exact absurd hst hb
      | lent => rfl
    refine h.change (i := { d.nodeInfo c with guest := 0 }) ⟨rfl, rfl, rfl, rfl, ?_⟩
      ⟨?_, ?_, (h.info c).owner, nofun⟩ rfl hs ?_ (exact_update h rfl rfl rfl rfl)
    · intro x hx
      simp [updateOccupiedCores, Shdata.push, Shdata.setFree, Shdata.set, hx]
    · simp [hl]
    · simp [hl]
    · simp [updateOccupiedCores, Shdata.push, Shdata.setFree, CpuInfo.Idle, hl]

/-! `lend_cpu` -/

theorem set_set (i j : CpuInfo) : (d.set c i).set c j = d.set c j := by
  simp [Shdata.set]

theorem set_self : d.set c (d.nodeInfo c) = d := by
  simp [Shdata.set]

theorem set_info (i : CpuInfo) : (d.set c i).nodeInfo c = i := by
  simp [Shdata.set]

/-- The entry of a CPU that `pid` lends and leaves. -/
def lentInfo (pid : Pid) (i : CpuInfo) : CpuInfo :=
  { i with
    state := if i.owner = pid then .lent else i.state
    guest := if i.guest = pid then 0 else i.guest }

theorem leave_lendOwned (hq : d.queuesEnabled = false) :
    leave (lendOwned d pid c) pid c = d.set c (lentInfo pid (d.nodeInfo c)) := by
  have hlend : lendOwned d pid c =
      d.set c { d.nodeInfo c with state := if (d.nodeInfo c).owner = pid then .lent else (d.nodeInfo c).state } := by
    unfold lendOwned
    dsimp only
    split
    · rfl
    · rw [hq, if_neg Bool.false_ne_true, set_self]
  rw [hlend, leave, set_info]
  unfold lentInfo
  dsimp only
  split
  · rw [set_set]
  · rfl

theorem assignGuest_of_not_busy (hq : d.queuesEnabled = false) (hb : (d.nodeInfo c).state ≠ .busy) :
    assignGuest S d c = (d, 0) := by
  simp [assignGuest, findNewGuest, hb, hq]

theorem assignGuest_of_busy (hb : (d.nodeInfo c).state = .busy) (ho : (d.nodeInfo c).owner ≠ 0) :
    assignGuest S d c = ((d.set c { d.nodeInfo c with guest := (d.nodeInfo c).owner }).push .enableCpu
      (d.nodeInfo c).owner c, (d.nodeInfo c).owner) := by
  simp [assignGuest, findNewGuest, hb, ho]

theorem foldl_assignRest (hq : d.queuesEnabled = false)
    (h : ∀ e, e ≠ c → (d.nodeInfo e).guest = 0 → (d.nodeInfo e).state ≠ .busy) (l : List ℕ) :
    l.foldl (assignRest S c) d = d := by
  induction l with
  | nil => rfl
  | cons e rest ih =>
    have he : assignRest S c d e = d := by
      unfold assignRest
      split
      · rename_i hg
        rw [assignGuest_of_not_busy hq (h e hg.1 hg.2), if_pos rfl]
      · rfl
    rw [List.foldl_cons, he, ih]

theorem findGuests_eq (hq : d.queuesEnabled = false) (hb : (d.nodeInfo c).state = .busy → (d.nodeInfo c).owner ≠ 0)
    (h : ∀ e, e ≠ c → (d.nodeInfo e).guest = 0 → (d.nodeInfo e).state ≠ .busy) :
    findGuests S d c =
      if (d.nodeInfo c).guest = 0 ∧ (d.nodeInfo c).state = .busy then
        (d.set c { d.nodeInfo c with guest := (d.nodeInfo c).owner }).push .enableCpu (d.nodeInfo c).owner c
      else d := by
  unfold findGuests
  by_cases hg : (d.nodeInfo c).guest = 0
  · by_cases hs : (d.nodeInfo c).state = .busy
    · rw [assignGuest_of_busy hs (hb hs), if_pos hg]
      rw [if_neg (hb hs), if_pos ⟨hg, hs⟩]
      refine foldl_assignRest (by exact hq) (fun e he hge => ?_) _
      simp only [Shdata.push, Shdata.set, update_of_ne he] at hge ⊢
      exact h e he hge
    · rw [assignGuest_of_not_busy hq hs, if_pos hg, if_neg fun hc : _ ∧ _ => hs hc.2]
      rw [if_pos rfl]
  · rw [if_neg hg, if_neg fun hc : _ ∧ _ => hg hc.1]

theorem lentInfo_state (i : CpuInfo) (hs : i.state ≠ .disabled) : (lentInfo pid i).state ≠ .disabled := by
  unfold lentInfo
  dsimp only
  split
  · exact nofun
  · exact hs

theorem lentInfo_busy {i : CpuInfo} (hb : (lentInfo pid i).state = .busy) : i.state = .busy := by
  unfold lentInfo at hb
  dsimp only at hb
  split at hb
  · cases hb
  · exact hb

theorem lentInfo_guest {i : CpuInfo} (hg : (lentInfo pid i).guest ≠ 0) : (lentInfo pid i).guest = i.guest := by
  unfold lentInfo at hg ⊢
  split at hg
  · exact absurd rfl hg
  · rename_i hp
    rw [if_neg hp]

/-- The entry of a CPU after `lend_cpu` without queues: a claimed CPU goes back to its owner. -/
def lendInfo (pid : Pid) (i : CpuInfo) : CpuInfo :=
  if (lentInfo pid i).guest = 0 ∧ (lentInfo pid i).state = .busy then { lentInfo pid i with guest := i.owner }
  else lentInfo pid i

theorem lendCpu_eq (pid : Pid) (h : Consistent S attached d) (hs : (d.nodeInfo c).state ≠ .disabled) :
    ∃ d1 : Shdata, Changes d d1 c (lendInfo pid (d.nodeInfo c)) ∧ d1.occupiedCores = d.occupiedCores ∧
      (c ∈ d1.freeCpus ↔ c ∈ d.freeCpus ∨ (lendInfo pid (d.nodeInfo c)).guest = 0) ∧
      lendCpu S pid d c = updateOccupiedCores S d1 (d1.nodeInfo c).owner c := by
  have hq : (d.set c (lentInfo pid (d.nodeInfo c))).queuesEnabled = false := h.queues
  have hbusy : ((d.set c (lentInfo pid (d.nodeInfo c))).nodeInfo c).state = .busy →
      ((d.set c (lentInfo pid (d.nodeInfo c))).nodeInfo c).owner ≠ 0 := by
    rw [set_info]
    exact fun hb => ((h.info c).busy (lentInfo_busy hb)).1
  have hrest : ∀ e, e ≠ c → ((d.set c (lentInfo pid (d.nodeInfo c))).nodeInfo e).guest = 0 →
      ((d.set c (lentInfo pid (d.nodeInfo c))).nodeInfo e).state ≠ .busy := by
    intro e he
    simp only [Shdata.set, update_of_ne he]
    exact fun hg hb => ((h.info e).busy hb).2 hg
  unfold lendCpu
  dsimp only
  rw [leave_lendOwned h.queues, findGuests_eq hq hbusy hrest, set_info]
  unfold lendInfo
  split
  · rename_i hg
    have ho : (d.nodeInfo c).owner ≠ 0 := ((h.info c).busy (lentInfo_busy hg.2)).1
    rw [if_neg (by simpa [Shdata.push, Shdata.set, lentInfo] using ho)]
    refine ⟨_, ⟨?_, ?_, ?_, ?_, ?_⟩, ?_, ?_, rfl⟩
    · simp [Shdata.push, Shdata.set, lentInfo]
    · rfl
    · rfl
    · rfl
    · exact fun _ _ => Iff.rfl
    · rfl
    · simp [Shdata.push, Shdata.set, ho]
  · rename_i hg
    rw [set_info]
    split
    · rename_i hg0
      refine ⟨_, ⟨?_, ?_, ?_, ?_, ?_⟩, ?_, ?_, rfl⟩
      · rfl
      · rfl
      · rfl
      · rfl
      · intro x hx
        simp [Shdata.setFree, Shdata.set, hx]
      · rfl
      · simp [Shdata.setFree, Shdata.set, hg0]
    · rename_i hg0
      refine ⟨_, ⟨?_, ?_, ?_, ?_, ?_⟩, ?_, ?_, rfl⟩
      · rfl
      · rfl
      · rfl
      · rfl
      · exact fun _ _ => Iff.rfl
      · rfl
      · simp [Shdata.set, hg0]

theorem lendInfo_owner (i : CpuInfo) : (lendInfo pid i).owner = i.owner := by
  unfold lendInfo
  split <;> rfl

theorem lendInfo_sound {i : CpuInfo} (hi : i.Sound attached) (hs : i.state ≠ .disabled) :
    (lendInfo pid i).Sound attached := by
  have hns : (lentInfo pid i).state ≠ .disabled := lentInfo_state i hs
  unfold lendInfo
  split
  · rename_i hg
    have ho := (hi.busy (lentInfo_busy hg.2)).1
    exact ⟨fun _ => ⟨ho, ho⟩, fun hd => absurd hd hns, hi.owner, hi.owner⟩
  · rename_i hg
    refine ⟨fun hb => ⟨(hi.busy (lentInfo_busy hb)).1, fun hg0 => hg ⟨hg0, hb⟩⟩, fun hd => absurd hd hns, hi.owner, ?_⟩
    intro hg0
    have he := lentInfo_guest hg0
    rw [he] at hg0 ⊢
    exact hi.guest hg0

theorem lendInfo_idle {i : CpuInfo} (hi : i.Sound attached) (hs : i.state ≠ .disabled) :
    (lendInfo pid i).Idle ↔ i.Idle ∨ (lendInfo pid i).guest = 0 := by
  have hsound : (lendInfo pid i).Sound attached := lendInfo_sound hi hs
  have hlent : (lendInfo pid i).guest = 0 → (lendInfo pid i).state = .lent := by
    intro hg
    cases hst : (lendInfo pid i).state with
    | disabled =>
      unfold lendInfo at hst
      split at hst <;> exact absurd hst (lentInfo_state i hs)
    | busy => exact absurd hg (hsound.busy hst).2
    | lent => rfl
  constructor
  · exact fun h => Or.inr h.2
  · rintro (h | h)
    · have hg : (lendInfo pid i).guest = 0 := by
        simp [lendInfo, lentInfo, h.1, h.2]
      exact ⟨hlent hg, hg⟩
    · exact ⟨hlent h, h⟩

theorem lendCpu_consistent (h : Consistent S attached d) : Consistent S attached (lendCpu S pid d c) := by
  by_cases hs : (d.nodeInfo c).state = .disabled
  · unfold lendCpu
    rwa [if_pos hs]
  obtain ⟨d1, hch, hocc, hfree, heq⟩ := lendCpu_eq pid h hs
  rw [heq]
  have ho : (d1.nodeInfo c).owner = (lendInfo pid (d.nodeInfo c)).owner := by rw [hch.info, update_self]
  refine h.change (i := lendInfo pid (d.nodeInfo c)) ⟨hch.info, hch.initialized, hch.queues, hch.smt, hch.free⟩
    (lendInfo_sound (h.info c) hs) (lendInfo_owner _) hs ?_ ?_
  · rw [lendInfo_idle (h.info c) hs, ← h.free c]
    exact hfree
  · rw [updateOccupiedCores, ho]
    exact exact_update h (lendInfo_owner _) hch.info hocc hch.smt

end Ops

end Dlb.Cpuinfo

import Dlb.Procinfo.Shmem

/-!
# The entries of the table

Which process holds which slot. Moving CPUs between processes leaves the entries alone (`setNewMask_same`,
`unregisterMask_same`); the inits write one entry, and the slots at `num_processes` and beyond stay empty (`Bounded`).
-/

namespace Dlb.Procinfo

variable {S : System} {d d1 d2 : Shdata} {p : ℕ}

/-! ## Operations that keep the entries -/

/-- The same processes in the same slots, under the same flags. -/
structure SameEntries (d d' : Shdata) : Prop where
  initialized : d'.initialized = d.initialized
  sharing : d'.allowCpuSharing = d.allowCpuSharing
  unknown : d'.cpuSharingUnknown = d.cpuSharingUnknown
  maxProcesses : d'.maxProcesses = d.maxProcesses
  num : d'.numProcesses = d.numProcesses
  pid : ∀ i, (d'.processInfo i).pid = (d.processInfo i).pid
  preregistered : ∀ i, (d'.processInfo i).preregistered = (d.processInfo i).preregistered

theorem SameEntries.refl (d : Shdata) : SameEntries d d := ⟨rfl, rfl, rfl, rfl, rfl, fun _ => rfl, fun _ => rfl⟩

theorem SameEntries.trans (h1 : SameEntries d d1) (h2 : SameEntries d1 d2) : SameEntries d d2 where
  initialized := h2.initialized.trans h1.initialized
  sharing := h2.sharing.trans h1.sharing
  unknown := h2.unknown.trans h1.unknown
  maxProcesses := h2.maxProcesses.trans h1.maxProcesses
  num := h2.num.trans h1.num
  pid i := (h2.pid i).trans (h1.pid i)
  preregistered i := (h2.preregistered i).trans (h1.preregistered i)

@[simp] theorem set_same_slot (d : Shdata) (p : ℕ) (info : Pinfo) : (d.set p info).processInfo p = info := by
  simp [Shdata.set]

theorem set_other_slot (d : Shdata) {p i : ℕ} (info : Pinfo) (h : i ≠ p) :
    (d.set p info).processInfo i = d.processInfo i := by
  simp [Shdata.set, h]

@[simp] theorem set_num (d : Shdata) (p : ℕ) (info : Pinfo) : (d.set p info).numProcesses = d.numProcesses := rfl

@[simp] theorem modify_num (d : Shdata) (p : ℕ) (f : Pinfo → Pinfo) :
    (d.modify p f).numProcesses = d.numProcesses := rfl

@[simp] theorem set_initialized (d : Shdata) (p : ℕ) (info : Pinfo) :
    (d.set p info).initialized = d.initialized := rfl

@[simp] theorem modify_initialized (d : Shdata) (p : ℕ) (f : Pinfo → Pinfo) :
    (d.modify p f).initialized = d.initialized := rfl

theorem set_same {info : Pinfo} (hp : info.pid = (d.processInfo p).pid)
    (hr : info.preregistered = (d.processInfo p).preregistered) : SameEntries d (d.set p info) := by
  refine ⟨rfl, rfl, rfl, rfl, rfl, fun i => ?_, fun i => ?_⟩
  all_goals
    by_cases hi : i = p
    · subst hi
      simpa
    · rw [set_other_slot d info hi]

theorem free_same (d : Shdata) (free : CpuSet) : SameEntries d { d with freeMask := free } :=
  ⟨rfl, rfl, rfl, rfl, rfl, fun _ => rfl, fun _ => rfl⟩

theorem foldl_same {α : Type*} {f : Shdata → α → Shdata} (h : ∀ d a, SameEntries d (f d a)) (xs : List α) (d : Shdata) :
    SameEntries d (xs.foldl f d) := by
  induction xs generalizing d with
  | nil => exact .refl d
  | cons x xs ih => exact (h d x).trans (ih (f d x))

theorem registerMask_same (S : System) (d : Shdata) (owner : Pinfo) (mask : CpuSet) :
    SameEntries d (registerMask S d owner mask).1 := by
  unfold registerMask
  repeat' split
  · exact .refl d
  · exact .refl d
  · exact free_same d _
  · exact .refl d

@[simp] theorem registerMask_table (S : System) (d : Shdata) (owner : Pinfo) (mask : CpuSet) :
    (registerMask S d owner mask).1.processInfo = d.processInfo := by
  unfold registerMask
  repeat' split
  all_goals rfl

@[simp] theorem registerMask_pid (S : System) (d : Shdata) (owner : Pinfo) (mask : CpuSet) :
    (registerMask S d owner mask).2.1.pid = owner.pid := by
  unfold registerMask
  repeat' split
  all_goals rfl

@[simp] theorem registerMask_preregistered (S : System) (d : Shdata) (owner : Pinfo) (mask : CpuSet) :
    (registerMask S d owner mask).2.1.preregistered = owner.preregistered := by
  unfold registerMask
  repeat' split
  all_goals rfl

theorem registerMask_error (S : System) (d : Shdata) (owner : Pinfo) (mask : CpuSet) :
    (registerMask S d owner mask).2.2 = .success ∨ (registerMask S d owner mask).2.2 = .errPerm := by
  unfold registerMask
  repeat' split
  all_goals simp

theorem giveBack_same (d : Shdata) (cpu : ℕ) : SameEntries d (giveBack d cpu) := by
  unfold giveBack
  split
  · exact set_same rfl rfl
  · exact free_same d _

theorem unregisterCpu_same (owner : ℕ) (d : Shdata) (cpu : ℕ) : SameEntries d (unregisterCpu owner d cpu) :=
  (giveBack_same d cpu).trans (set_same rfl rfl)

theorem unregisterMask_same (S : System) (d : Shdata) (owner : ℕ) (mask : CpuSet) (returnStolen : Bool) :
    SameEntries d (unregisterMask S d owner mask returnStolen) := by
  unfold unregisterMask
  repeat' split
  · exact .refl d
  · exact .refl d
  · exact foldl_same (unregisterCpu_same owner) _ d
  · refine (free_same d (d.freeMask ∪ mask)).trans ?_
    exact set_same rfl rfl

theorem stealFrom_same (S : System) (dryRun : Bool) (d : Shdata) (p : ℕ) (target : CpuSet) :
    SameEntries d (stealFrom S dryRun d p target) := by
  unfold stealFrom
  split
  · exact .refl d
  · exact set_same rfl rfl

theorem stealLoop_same (S : System) (newOwner : ℕ) (mask : CpuSet) (dryRun : Bool) (ps : List ℕ) (d : Shdata)
    (left : CpuSet) : SameEntries d (stealLoop S newOwner mask dryRun ps d left).1 := by
  induction ps generalizing d left with
  | nil => exact .refl d
  | cons p ps ih =>
    unfold stealLoop
    dsimp only
    repeat' split
    · exact .refl d
    · exact stealFrom_same S dryRun d p _
    · exact (stealFrom_same S dryRun d p _).trans (ih _ _)
    · exact ih d left

theorem rollBack_same (S : System) (newOwner : ℕ) (mask : CpuSet) (d : Shdata) (p : ℕ) :
    SameEntries d (rollBack S newOwner mask d p) := by
  unfold rollBack
  dsimp only
  split
  · exact set_same rfl rfl
  · exact .refl d

theorem stealMask_same (S : System) (d : Shdata) (newOwner : ℕ) (mask : CpuSet) (dryRun : Bool) :
    SameEntries d (stealMask S d newOwner mask dryRun).1 := by
  have hloop := stealLoop_same S newOwner mask dryRun (List.range d.numProcesses) d mask
  unfold stealMask
  dsimp only
  split
  · exact .refl d
  split
  · exact hloop
  split
  · refine hloop.trans ?_
    exact set_same rfl rfl
  · exact hloop.trans (foldl_same (rollBack_same S newOwner mask) _ _)

theorem setNewMask_same (S : System) (d : Shdata) (p : ℕ) (mask : CpuSet) (returnStolen : Bool) :
    SameEntries d (setNewMask S d p mask returnStolen).1 := by
  unfold setNewMask
  dsimp only
  set dry := stealMask S d p (cpusToSteal S d (d.processInfo p) mask) true with hdry
  set stolen := stealMask S dry.1 p (cpusToSteal S d (d.processInfo p) mask) false with hstolen
  have h1 : SameEntries d dry.1 := stealMask_same S d p _ true
  have h2 : SameEntries d stolen.1 := h1.trans (stealMask_same S dry.1 p _ false)
  have h3 := h2.trans <| (registerMask_same S stolen.1 (stolen.1.processInfo p) (cpusToAcquire S d mask)).trans <|
    set_same (p := p) (show ((registerMask S stolen.1 (stolen.1.processInfo p) (cpusToAcquire S d mask)).2.1).pid = _ by
      simp) (by simp)
  repeat' split
  · exact .refl d
  · exact h1
  · exact h2
  · exact h3
  · exact h3.trans (unregisterMask_same S _ p _ returnStolen)

theorem resolve_same (d : Shdata) (p : ℕ) : SameEntries d (d.modify p resolve) := set_same rfl rfl

theorem setprocessmaskSelf_same (S : System) (d : Shdata) (p : ℕ) (mask : CpuSet) (flags : DromFlags) :
    SameEntries d (setprocessmaskSelf S d p mask flags).1 := by
  have h : SameEntries d (setOwnMask S d p mask flags.returnStolen).1 := by
    unfold setOwnMask
    split
    · exact setNewMask_same S d p mask flags.returnStolen
    · exact .refl d
  unfold setprocessmaskSelf
  dsimp only
  split
  · exact h.trans (resolve_same _ p)
  · exact h

/-! ## The slot search -/

section Search

variable {pid preinitPid : Pid} {n : ℕ} {found : Option ℕ × Option ℕ}

/-- What the search has found among the first `n` slots. -/
structure Found (d : Shdata) (preinitPid : Pid) (n : ℕ) (found : Option ℕ × Option ℕ) : Prop where
  empty : ∀ p, found.1 = some p → p < n ∧ (d.processInfo p).pid = 0
  noEmpty : found.1 = none → ∀ p, p < n → (d.processInfo p).pid ≠ 0
  preinit : ∀ q, found.2 = some q → q < n ∧ preinitPid ≠ 0 ∧ (d.processInfo q).pid = preinitPid ∧
    (d.processInfo q).preregistered = true
  noPreinit : found.2 = none → preinitPid ≠ 0 → ∀ q, q < n → (d.processInfo q).pid ≠ preinitPid

theorem findSlots_append (d : Shdata) (pid preinitPid : Pid) (xs ys : List ℕ) (h : allFound preinitPid found = false) :
    findSlots d pid preinitPid (xs ++ ys) found =
      match findSlots d pid preinitPid xs found with
      | .error error => .error error
      | .ok found => if allFound preinitPid found then .ok found else findSlots d pid preinitPid ys found := by
  induction xs generalizing found with
  | nil => simp [findSlots, h]
  | cons x xs ih =>
    simp only [List.cons_append, findSlots]
    cases visitSlot d pid preinitPid found x with
    | error error => rfl
    | ok found =>
      cases hall : allFound preinitPid found with
      | true => simp [hall]
      | false => simpa [hall] using ih hall

theorem allFound_none (preinitPid : Pid) : allFound preinitPid (none, none) = false := rfl

theorem findSlots_succ (d : Shdata) (pid preinitPid : Pid) (n : ℕ) :
    findSlots d pid preinitPid (List.range (n + 1)) (none, none) =
      match findSlots d pid preinitPid (List.range n) (none, none) with
      | .error error => .error error
      | .ok found => if allFound preinitPid found then .ok found else visitSlot d pid preinitPid found n := by
  rw [List.range_succ, findSlots_append d pid preinitPid _ _ (allFound_none preinitPid)]
  cases findSlots d pid preinitPid (List.range n) (none, none) with
  | error error => rfl
  | ok found =>
    simp only [findSlots]
    cases visitSlot d pid preinitPid found n <;> simp

theorem Found.succ_of_all (h : Found d preinitPid n found) (hall : allFound preinitPid found = true) :
    Found d preinitPid (n + 1) found := by
  simp only [allFound, Bool.and_eq_true, Bool.or_eq_true, decide_eq_true_eq] at hall
  constructor
  · intro p hp
    exact ⟨(h.empty p hp).1.trans n.lt_succ_self, (h.empty p hp).2⟩
  · intro hnone
    simp [hnone] at hall
  · intro q hq
    exact ⟨(h.preinit q hq).1.trans n.lt_succ_self, (h.preinit q hq).2⟩
  · intro hnone hpre
    simp [hnone, hpre] at hall

theorem Found.visit {found' : Option ℕ × Option ℕ} (h : Found d preinitPid n found)
    (hv : visitSlot d pid preinitPid found n = .ok found') : Found d preinitPid (n + 1) found' := by
  have hlast : ∀ {P : ℕ → Prop}, (∀ p, p < n → P p) → P n → ∀ p, p < n + 1 → P p := by
    intro P hP hn p hp
    rcases Nat.lt_succ_iff_lt_or_eq.mp hp with hp | rfl
    · exact hP p hp
    · exact hn
  unfold visitSlot at hv
  dsimp only at hv
  split at hv
  · -- the first empty spot
    rename_i hempty
    cases hv
    constructor
    · rintro p ⟨⟩
      exact ⟨n.lt_succ_self, hempty.2⟩
    · rintro ⟨⟩
    · intro q hq
      exact ⟨(h.preinit q hq).1.trans n.lt_succ_self, (h.preinit q hq).2⟩
    · intro hnone hpre
      exact hlast (h.noPreinit hnone hpre) (by rw [hempty.2]; exact fun e => hpre e.symm)
  rename_i hempty
  have hne : found.1 = none → ∀ p, p < n + 1 → (d.processInfo p).pid ≠ 0 := fun hnone =>
    hlast (h.noEmpty hnone) fun hz => hempty ⟨hnone, hz⟩
  have hsome : ∀ p, found.1 = some p → p < n + 1 ∧ (d.processInfo p).pid = 0 := fun p hp =>
    ⟨(h.empty p hp).1.trans n.lt_succ_self, (h.empty p hp).2⟩
  split at hv
  · -- the preregistered process
    rename_i hpre
    split at hv
    · rename_i hreg
      cases hv
      refine ⟨hsome, hne, ?_, ?_⟩
      · rintro q ⟨⟩
        exact ⟨n.lt_succ_self, hpre.1, hpre.2.2, hreg⟩
      · rintro ⟨⟩
    · cases hv
  · rename_i hpre
    split at hv
    · cases hv
    · cases hv
      refine ⟨hsome, hne, ?_, ?_⟩
      · intro q hq
        exact ⟨(h.preinit q hq).1.trans n.lt_succ_self, (h.preinit q hq).2⟩
      · intro hnone h0
        exact hlast (h.noPreinit hnone h0) fun he => hpre ⟨h0, hnone, he⟩

theorem findSlots_found (h : findSlots d pid preinitPid (List.range n) (none, none) = .ok found) :
    Found d preinitPid n found := by
  induction n generalizing found with
  | zero =>
    cases h
    constructor <;> simp
  | succ n ih =>
    rw [findSlots_succ] at h
    cases hn : findSlots d pid preinitPid (List.range n) (none, none) with
    | error error => rw [hn] at h; cases h
    | ok found1 =>
      rw [hn] at h
      dsimp only at h
      split at h
      · rename_i hall
        cases h
        exact (ih hn).succ_of_all hall
      · exact (ih hn).visit h

theorem visitSlot_error {error : DlbError} {p : ℕ} (h : visitSlot d pid preinitPid found p = .error error) :
    error = .errInit := by
  unfold visitSlot at h
  dsimp only at h
  repeat' split at h
  all_goals cases h
  all_goals rfl

theorem findSlots_error {error : DlbError} (xs : List ℕ)
    (h : findSlots d pid preinitPid xs found = .error error) : error = .errInit := by
  induction xs generalizing found with
  | nil => cases h
  | cons x xs ih =>
    simp only [findSlots] at h
    cases hv : visitSlot d pid preinitPid found x with
    | error e =>
      rw [hv] at h
      cases h
      exact visitSlot_error hv
    | ok found1 =>
      rw [hv] at h
      dsimp only at h
      split at h
      · cases h
      · exact ih h

theorem findSlots_isOk (hpid : ∀ j, j < n → (d.processInfo j).pid ≠ pid)
    (hpre : ∀ k, k < n → preinitPid ≠ 0 → (d.processInfo k).pid = preinitPid → (d.processInfo k).preregistered = true) :
    ∃ found, findSlots d pid preinitPid (List.range n) (none, none) = .ok found := by
  induction n with
  | zero => exact ⟨_, rfl⟩
  | succ n ih =>
    obtain ⟨found, hf⟩ := ih (fun j hj => hpid j (hj.trans n.lt_succ_self))
      fun k hk => hpre k (hk.trans n.lt_succ_self)
    rw [findSlots_succ, hf]
    dsimp only
    split
    · exact ⟨_, rfl⟩
    · unfold visitSlot
      dsimp only
      split
      · exact ⟨_, rfl⟩
      · split
        · rename_i h
          rw [if_pos (hpre n n.lt_succ_self h.1 h.2.2)]
          exact ⟨_, rfl⟩
        · rw [if_neg (hpid n n.lt_succ_self)]
          exact ⟨_, rfl⟩

end Search

/-! ## What the inits write -/

/-- Slot `p` gets the process `pid`, the other entries stay. -/
structure Writes (d d' : Shdata) (p : ℕ) (pid : Pid) : Prop where
  slot : (d'.processInfo p).pid = pid
  other : ∀ i, i ≠ p → (d'.processInfo i).pid = (d.processInfo i).pid

theorem writes_set {pid : Pid} {info : Pinfo} (h : info.pid = pid) : Writes d (d.set p info) p pid :=
  ⟨by simpa, fun i hi => by rw [set_other_slot d info hi]⟩

theorem Writes.trans_same {pid : Pid} (h : Writes d d1 p pid) (hs : SameEntries d1 d2) : Writes d d2 p pid :=
  ⟨(hs.pid p).trans h.slot, fun i hi => (hs.pid i).trans (h.other i hi)⟩

theorem writes_set_modify {pid : Pid} {info : Pinfo} {f : Pinfo → Pinfo} {q : ℕ} (h : info.pid = pid)
    (hp : ∀ info, (f info).pid = info.pid) (hr : ∀ info, (f info).preregistered = info.preregistered) :
    Writes d ((d.set p info).modify q f) p pid :=
  (writes_set h).trans_same (set_same (hp _) (hr _))

theorem SameEntries.trans_writes {pid : Pid} (hs : SameEntries d d1) (h : Writes d1 d2 p pid) : Writes d d2 p pid :=
  ⟨h.slot, fun i hi => (h.other i hi).trans (hs.pid i)⟩

@[simp] theorem grow_table (d : Shdata) (grows : Bool) : (d.grow grows).processInfo = d.processInfo := by
  unfold Shdata.grow
  split <;> rfl

@[simp] theorem grow_initialized (d : Shdata) (grows : Bool) : (d.grow grows).initialized = d.initialized := by
  unfold Shdata.grow
  split <;> rfl

@[simp] theorem grow_num (d : Shdata) (grows : Bool) :
    (d.grow grows).numProcesses = d.numProcesses + if grows then 1 else 0 := by
  unfold Shdata.grow
  split <;> rfl

/-- The new process gets a slot of its own beside the preregistered one in slot `q`: the cases C and D succeed. -/
def Splits (S : System) (maxProcesses : ℕ) (sharing : Bool) (d : Shdata) (mask : CpuSet) (q : ℕ) : Prop :=
  (d.numProcesses < maxProcesses ∨ ∃ p, p < d.numProcesses ∧ (d.processInfo p).pid = 0) ∧
  mask ≠ ∅ ∧ mask ≠ (d.processInfo q).effective ∧
  muIsProperSuperset S mask (d.processInfo q).effective = false ∧ (d.processInfo q).dirty = false ∧
  (muIsProperSubset S mask (d.processInfo q).effective = true ∨ sharing = true ∨
    muIsSubset S (muSubtract S ∅ mask (d.processInfo q).effective) d.freeMask = true)

section Inherit

variable {mask : CpuSet}

theorem registerMask_success {owner : Pinfo} (h : (registerMask S d owner mask).2.2 = .success) :
    d.allowCpuSharing = true ∨ muIsSubset S mask d.freeMask = true := by
  unfold registerMask at h
  split at h
  · rename_i hm
    subst hm
    exact .inr (by simp [muIsSubset])
  split at h
  · rename_i hs
    exact .inl hs
  split at h
  · rename_i hs
    exact .inr hs
  · cases h

theorem inheritProcess_cases (S : System) (d : Shdata) (pid : Pid) (mask : CpuSet) (q : ℕ) (spot : Option ℕ) :
    ((inheritProcess S d pid mask q spot).2.1 = none ∧ SameEntries d (inheritProcess S d pid mask q spot).1) ∨
    ((inheritProcess S d pid mask q spot).2.1 = some q ∧ Writes d (inheritProcess S d pid mask q spot).1 q pid) ∨
    (∃ p, spot = some p ∧ (inheritProcess S d pid mask q spot).2.1 = some p ∧
      Writes d (inheritProcess S d pid mask q spot).1 p pid ∧
      mask ≠ ∅ ∧ mask ≠ (d.processInfo q).effective ∧
      muIsProperSuperset S mask (d.processInfo q).effective = false ∧ (d.processInfo q).dirty = false ∧
      (muIsProperSubset S mask (d.processInfo q).effective = true ∨ d.allowCpuSharing = true ∨
        muIsSubset S (muSubtract S ∅ mask (d.processInfo q).effective) d.freeMask = true)) := by
  have hreg := registerMask_same S d {} (muSubtract S ∅ mask (d.processInfo q).effective)
  unfold inheritProcess
  dsimp only
  split
  · exact .inr (.inl ⟨rfl, writes_set rfl⟩)
  rename_i hA
  obtain ⟨hempty, hequal⟩ := not_or.mp hA
  split
  · split
    · exact .inl ⟨rfl, .refl d⟩
    · split
      · exact .inr (.inl ⟨rfl, hreg.trans_writes (writes_set rfl)⟩)
      · exact .inl ⟨rfl, hreg⟩
  rename_i hB
  split
  · rename_i hC
    split
    · exact .inl ⟨rfl, .refl d⟩
    rename_i hclean
    cases spot with
    | none => exact .inl ⟨rfl, .refl d⟩
    | some p =>
      refine .inr (.inr ⟨p, rfl, rfl, ?_, hempty, hequal, by simpa using hB, by simpa using hclean, .inl hC⟩)
      dsimp only
      apply writes_set_modify
      all_goals simp
  · split
    · exact .inl ⟨rfl, .refl d⟩
    rename_i hclean
    cases spot with
    | none => exact .inl ⟨rfl, .refl d⟩
    | some p =>
      dsimp only
      split
      · rename_i hok
        refine .inr (.inr ⟨p, rfl, rfl, ?_, hempty, hequal, by simpa using hB, by simpa using hclean,
          .inr (registerMask_success hok)⟩)
        apply hreg.trans_writes
        dsimp only
        apply writes_set_modify
        all_goals simp
      · exact .inl ⟨rfl, hreg⟩

theorem inheritProcess_num (S : System) (d : Shdata) (pid : Pid) (mask : CpuSet) (q : ℕ) (spot : Option ℕ) :
    (inheritProcess S d pid mask q spot).1.numProcesses = d.numProcesses ∧
      (inheritProcess S d pid mask q spot).1.initialized = d.initialized := by
  have hreg := registerMask_same S d {} (muSubtract S ∅ mask (d.processInfo q).effective)
  unfold inheritProcess
  dsimp only
  repeat' split
  all_goals first | exact ⟨rfl, rfl⟩ | exact ⟨hreg.num, hreg.initialized⟩

theorem inheritProcess_error (S : System) (d : Shdata) (pid : Pid) (mask : CpuSet) (q : ℕ) (spot : Option ℕ) :
    (inheritProcess S d pid mask q spot).2.2 ≠ .errInit := by
  unfold inheritProcess
  dsimp only
  repeat' split
  all_goals simp

end Inherit

/-! ## Init and preinit -/

/-- The slots from the upper bound on are empty, and there is none in a memory that is not set up. -/
structure Bounded (d : Shdata) : Prop where
  empty : ∀ i, d.numProcesses ≤ i → (d.processInfo i).pid = 0
  fresh : d.initialized = false → d.numProcesses = 0

theorem Bounded.lt_num (hb : Bounded d) {i : ℕ} (h : (d.processInfo i).pid ≠ 0) : i < d.numProcesses :=
  not_le.mp fun hle => h (hb.empty i hle)

theorem Bounded.initialized (hb : Bounded d) {i : ℕ} (h : (d.processInfo i).pid ≠ 0) : d.initialized = true := by
  by_contra hinit
  have := hb.fresh (by simpa using hinit)
  have := hb.lt_num h
  omega

theorem Bounded.writes {pid : Pid} (hb : Bounded d) (hw : Writes d d1 p pid) (hinit : d1.initialized = true)
    (hp : pid ≠ 0 → p < d1.numProcesses) (hn : d.numProcesses ≤ d1.numProcesses) : Bounded d1 := by
  refine ⟨fun i hi => ?_, fun h => by rw [hinit] at h; cases h⟩
  by_cases hip : i = p
  · subst hip
    rw [hw.slot]
    by_contra hpid
    exact absurd (hp hpid) (not_lt.mpr hi)
  · rw [hw.other i hip]
    exact hb.empty i (hn.trans hi)

theorem Bounded.grow (hb : Bounded d) (grows : Bool) (hinit : d.initialized = true) : Bounded (d.grow grows) where
  empty i hi := by
    rw [grow_num] at hi
    rw [grow_table]
    exact hb.empty i (by omega)
  fresh h := by
    rw [grow_initialized, hinit] at h
    cases h

theorem Bounded.same (hb : Bounded d) (hs : SameEntries d d1) : Bounded d1 where
  empty i hi := (hs.pid i).trans (hb.empty i (hs.num ▸ hi))
  fresh h := hs.num.trans (hb.fresh (hs.initialized ▸ h))

section Init

variable {c : Caller} {pid preinitPid : Pid} {mask : CpuSet} {sharing : Bool}

/-- What opening leaves: the table, and in a memory that was set up also the bound and the free CPUs. -/
structure Opened (S : System) (sharing : Bool) (d d1 : Shdata) : Prop where
  initialized : d1.initialized = true
  sharing : d1.allowCpuSharing = sharing
  table : d1.processInfo = d.processInfo
  old : d.initialized = true → d1.numProcesses = d.numProcesses ∧ d1.freeMask = d.freeMask
  new : d.initialized = false → d1.numProcesses = 0 ∧ d1.freeMask = S.sysMask

theorem openShmem_opened (h : openShmem S c d sharing = .ok d1) : Opened S sharing d d1 := by
  unfold openShmem at h
  split at h
  · rename_i hinit
    cases h
    exact ⟨rfl, rfl, rfl, fun hi => by simp [hi] at hinit, fun _ => ⟨rfl, rfl⟩⟩
  rename_i hinit
  have hinit' : d.initialized = true := by simpa using hinit
  split at h
  · cases h
  split at h
  · cases h
    exact ⟨hinit', rfl, rfl, fun _ => ⟨rfl, rfl⟩, fun hi => by simp [hi] at hinit'⟩
  split at h
  · cases h
  · rename_i hs
    cases h
    exact ⟨hinit', by simpa using hs, rfl, fun _ => ⟨rfl, rfl⟩, fun hi => by simp [hi] at hinit'⟩

theorem Opened.num (h : Opened S sharing d d1) (hb : Bounded d) : d1.numProcesses = d.numProcesses := by
  cases hinit : d.initialized with
  | true => exact (h.old hinit).1
  | false => rw [(h.new hinit).1, hb.fresh hinit]

theorem Opened.bounded (h : Opened S sharing d d1) (hb : Bounded d) : Bounded d1 where
  empty i hi := by
    rw [h.table]
    exact hb.empty i (h.num hb ▸ hi)
  fresh hf := by
    rw [h.initialized] at hf
    cases hf

theorem emptySpot_some {found : Option ℕ} {isLast : Bool} (hb : Bounded d)
    (hf : ∀ p, found = some p → p < d.numProcesses ∧ (d.processInfo p).pid = 0)
    (h : emptySpot c d found = (some p, isLast)) :
    (d.processInfo p).pid = 0 ∧ p < d.numProcesses + (if isLast then 1 else 0) ∧
      (d.numProcesses < c.maxProcesses ∨ ∃ p, p < d.numProcesses ∧ (d.processInfo p).pid = 0) := by
  unfold emptySpot at h
  split at h
  · rename_i hlast
    cases h
    exact ⟨hb.empty _ le_rfl, by simp, .inl hlast.1⟩
  · cases h
    obtain ⟨hlt, hz⟩ := hf p rfl
    exact ⟨hz, by simpa using hlt, .inr ⟨p, hlt, hz⟩⟩

theorem newProcess_cases (S : System) (d : Shdata) (pid : Pid) (mask : CpuSet) (p : ℕ) :
    (newProcess S d pid mask p).1.numProcesses = d.numProcesses ∧
    (newProcess S d pid mask p).1.initialized = d.initialized ∧
    (newProcess S d pid mask p).2 ≠ .errInit ∧
    (Writes d (newProcess S d pid mask p).1 p pid ∨ Writes d (newProcess S d pid mask p).1 p 0) := by
  have hreg := registerMask_same S d { pid := pid } mask
  have herr : (registerMask S d { pid := pid } mask).2.2 ≠ .errInit := by
    rcases registerMask_error S d { pid := pid } mask with h | h <;> simp [h]
  unfold newProcess
  dsimp only
  split
  · exact ⟨hreg.num, hreg.initialized, herr, .inl (hreg.trans_writes (writes_set (registerMask_pid _ _ _ _)))⟩
  · exact ⟨hreg.num, hreg.initialized, herr, .inr (hreg.trans_writes (writes_set rfl))⟩

/-- The slot that an init writes: the one of the preregistered process that the search found, or an empty one beside
it, or an empty one when there is none to inherit from. -/
def InitSlot (S : System) (c : Caller) (d : Shdata) (mask : CpuSet) (sharing : Bool)
    (preinit : Option ℕ) (p : ℕ) : Prop :=
  preinit = some p ∨
    (d.processInfo p).pid = 0 ∧ ∀ q, preinit = some q → Splits S c.maxProcesses sharing d mask q

theorem Opened.splits (h : Opened S sharing d d1) (hb : Bounded d) {q : ℕ} (hq : (d1.processInfo q).pid ≠ 0)
    (hs : Splits S c.maxProcesses sharing d1 mask q) : Splits S c.maxProcesses sharing d mask q := by
  rw [h.table] at hq
  obtain ⟨hnum, hfree⟩ := h.old (hb.initialized hq)
  unfold Splits at hs ⊢
  rw [h.table, hnum, hfree] at hs
  exact hs

theorem Opened.grown {pid : Pid} (grows : Bool) (h : Opened S sharing d d1) (hb : Bounded d)
    (hw : Writes d1 d2 p pid) (hnum : d2.numProcesses = d1.numProcesses) (hinit : d2.initialized = d1.initialized)
    (hp : pid ≠ 0 → p < d1.numProcesses + if grows then 1 else 0) :
    Bounded (d2.grow grows) ∧ Writes d (d2.grow grows) p pid := by
  have hw' : Writes d1 (d2.grow grows) p pid := ⟨by simpa using hw.slot, fun i hi => by simpa using hw.other i hi⟩
  constructor
  · refine (h.bounded hb).writes hw' (by simp [hinit, h.initialized]) (fun hpid => ?_) ?_
    · simpa [hnum] using hp hpid
    · simp [hnum]
  · exact ⟨hw'.slot, fun i hi => by rw [hw'.other i hi, h.table]⟩

theorem init_cases (S : System) (c : Caller) (pid preinitPid : Pid) (mask : CpuSet) (sharing : Bool) (hb : Bounded d) :
    Bounded (init S c d pid preinitPid mask sharing).1 ∧
    ((∀ i, ((init S c d pid preinitPid mask sharing).1.processInfo i).pid = (d.processInfo i).pid) ∨
      ∃ d1 found p, openShmem S c d sharing = .ok d1 ∧
        findSlots d1 pid preinitPid (List.range d1.numProcesses) (none, none) = .ok found ∧
        InitSlot S c d mask sharing found.2 p ∧
        Writes d (init S c d pid preinitPid mask sharing).1 p pid) := by
  unfold init
  cases hopen : openShmem S c d sharing with
  | error error => exact ⟨hb, .inl fun _ => rfl⟩
  | ok d1 =>
    have ho := openShmem_opened hopen
    have hb1 := ho.bounded hb
    dsimp only
    cases hfind : findSlots d1 pid preinitPid (List.range d1.numProcesses) (none, none) with
    | error error => exact ⟨hb1, .inl fun i => by rw [ho.table]⟩
    | ok found =>
      obtain ⟨f, pre⟩ := found
      have hf := findSlots_found hfind
      dsimp only
      rcases hspot : emptySpot c d1 f with ⟨spot, isLast⟩
      cases pre with
      | none =>
        cases spot with
        | none => exact ⟨hb1, .inl fun i => by rw [ho.table]⟩
        | some p =>
          obtain ⟨hz, hlt, -⟩ := emptySpot_some hb1 hf.empty hspot
          obtain ⟨hnum, hinit, -, hw⟩ := newProcess_cases S d1 pid mask p
          rw [ho.table] at hz
          rcases hw with hw | hw
          · obtain ⟨hb', hw'⟩ := Opened.grown isLast ho hb hw hnum hinit fun _ => hlt
            refine ⟨hb', .inr ⟨d1, _, p, rfl, hfind, .inr ⟨hz, ?_⟩, hw'⟩⟩
            rintro q ⟨⟩
          · -- the registration failed and the slot is empty again
            obtain ⟨hb', hw'⟩ := Opened.grown isLast ho hb hw hnum hinit fun h => absurd rfl h
            refine ⟨hb', .inl fun i => ?_⟩
            by_cases hip : i = p
            · subst hip
              rw [hz]
              exact hw'.slot
            · exact hw'.other i hip
      | some q =>
        obtain ⟨hlt, hpre0, hpid, -⟩ := hf.preinit q rfl
        obtain ⟨hnum, hinit⟩ := inheritProcess_num S d1 pid mask q spot
        rcases inheritProcess_cases S d1 pid mask q spot with ⟨hp, hs⟩ | ⟨hp, hw⟩ | ⟨p, rfl, hp, hw, hsplit⟩
        · refine ⟨(hb1.same hs).grow _ (hs.initialized.trans ho.initialized), .inl fun i => ?_⟩
          rw [grow_table, hs.pid i, ho.table]
        · obtain ⟨hb', hw'⟩ := Opened.grown
            (decide ((inheritProcess S d1 pid mask q spot).2.1 = spot ∧ isLast = true)) ho hb hw hnum hinit
            fun _ => by omega
          exact ⟨hb', .inr ⟨d1, _, q, rfl, hfind, .inl rfl, hw'⟩⟩
        · obtain ⟨hz, hlt', hroom⟩ := emptySpot_some hb1 hf.empty hspot
          obtain ⟨hb', hw'⟩ := Opened.grown
            (decide ((inheritProcess S d1 pid mask q (some p)).2.1 = some p ∧ isLast = true)) ho hb hw hnum hinit
            fun _ => by simpa [hp] using hlt'
          have hq : (d1.processInfo q).pid ≠ 0 := by rw [hpid]; exact hpre0
          rw [ho.sharing] at hsplit
          refine ⟨hb', .inr ⟨d1, _, p, rfl, hfind, .inr ⟨by rwa [ho.table] at hz, ?_⟩, hw'⟩⟩
          rintro q' ⟨⟩
          exact ho.splits hb hq ⟨hroom, hsplit⟩

theorem takeMask_same (S : System) (d : Shdata) (p : ℕ) (mask : CpuSet) (flags : DromFlags) :
    SameEntries d (takeMask S d p mask flags).1 := by
  unfold takeMask
  split
  · exact setNewMask_same S d p mask flags.returnStolen
  · dsimp only
    exact (registerMask_same S d _ mask).trans (set_same (by simp) (by simp))

theorem preregister_cases (S : System) (pid : Pid) (mask : CpuSet) (flags : DromFlags) (hb : Bounded d)
    (hinit : d.initialized = true) (hp : p ≤ d.numProcesses) :
    Bounded (preregister S d pid mask flags p).1 ∧
    (Writes d (preregister S d pid mask flags p).1 p pid ∨ Writes d (preregister S d pid mask flags p).1 p 0) := by
  have hs := takeMask_same S (d.set p { pid := pid, preregistered := true }) p mask flags
  unfold preregister
  dsimp only
  generalize takeMask S (d.set p { pid := pid, preregistered := true }) p mask flags = r at hs ⊢
  have hw : Writes d r.1 p pid := (writes_set rfl).trans_same hs
  have hnum : r.1.numProcesses = d.numProcesses := hs.num
  have hinit' : r.1.initialized = true := hs.initialized.trans hinit
  split
  · have hw' : Writes d (r.1.modify p fun info => { info with pid := 0 }) p 0 := by
      refine ⟨by simp [Shdata.modify], fun i hi => ?_⟩
      rw [Shdata.modify, set_other_slot _ _ hi, hw.other i hi]
    exact ⟨hb.writes hw' hinit' (fun h => absurd rfl h) hnum.ge, .inr hw'⟩
  · generalize hd2 : (r.1.modify p fun info => { info with
      currentProcessMask := mask
      futureProcessMask := mask
      dirty := false }) = d2
    have hw2 : Writes d d2 p pid := by
      rw [← hd2]
      exact hw.trans_same (set_same rfl rfl)
    have hnum2 : d2.numProcesses = d.numProcesses := by rw [← hd2, modify_num, hnum]
    have hw' : Writes d (d2.grow (decide (p = d2.numProcesses))) p pid :=
      ⟨by simpa using hw2.slot, fun i hi => by simpa using hw2.other i hi⟩
    refine ⟨hb.writes hw' ?_ (fun _ => ?_) ?_, .inl hw'⟩
    · rw [grow_initialized, ← hd2, modify_initialized, hinit']
    · rw [grow_num, hnum2]
      by_cases h : p = d.numProcesses
      · simp [h]
      · simp only [h, decide_false]
        omega
    · rw [grow_num, hnum2]
      exact Nat.le_add_right _ _

theorem preinit_cases (S : System) (c : Caller) (pid : Pid) (mask : CpuSet) (flags : DromFlags) (hb : Bounded d)
    (hinit : d.initialized = true) :
    Bounded (preinit S c d pid mask flags).1 ∧
    ((∀ i, ((preinit S c d pid mask flags).1.processInfo i).pid = (d.processInfo i).pid) ∨
      ∃ p, (d.processInfo p).pid = 0 ∧ (∀ j, j < p → (d.processInfo j).pid ≠ pid) ∧
        Writes d (preinit S c d pid mask flags).1 p pid) := by
  unfold preinit
  split
  · exact ⟨hb, .inl fun _ => rfl⟩
  · rename_i p hscan
    obtain ⟨-, hp, hbefore⟩ := Lib.scan_some hscan
    simp only [decide_eq_true_eq, decide_eq_false_iff_not, not_or] at hp hbefore
    split
    · exact ⟨hb, .inl fun _ => rfl⟩
    · rename_i hpid
      have hz : (d.processInfo p).pid = 0 := hp.resolve_left hpid
      have hle : p ≤ d.numProcesses := by
        by_contra hlt
        exact (hbefore _ (not_le.mp hlt)).2 (hb.empty _ le_rfl)
      obtain ⟨hb', hw⟩ := preregister_cases S pid mask flags hb hinit hle
      refine ⟨hb', ?_⟩
      rcases hw with hw | hw
      · exact .inr ⟨p, hz, fun j hj => (hbefore j hj).1, hw⟩
      · refine .inl fun i => ?_
        by_cases hip : i = p
        · subst hip
          rw [hz]
          exact hw.slot
        · exact hw.other i hip

end Init

/-! ## The other calls -/

theorem recoverStolenCpus_same (S : System) (c : Caller) (d : Shdata) (pid : Pid) (parents : List Pid) :
    SameEntries d (recoverStolenCpus S c d pid parents).1 := by
  unfold recoverStolenCpus
  split
  · exact .refl d
  · dsimp only
    have h := fun info mask => registerMask_same S d info mask
    repeat' split
    · exact .refl d
    · exact (h _ _).trans (set_same (by simp) (by simp))
    · exact (h _ _).trans (set_same (by simp) (by simp))

theorem getprocessmask_same (c : Caller) (d : Shdata) (pid : Pid) (parents : List Pid) :
    SameEntries d (getprocessmask c d pid parents).1 := by
  unfold getprocessmask getprocessmaskSelf
  dsimp only
  repeat' split
  · exact set_same rfl rfl
  all_goals exact .refl d

theorem setprocessmask_same (S : System) (c : Caller) (d : Shdata) (pid : Pid) (parents : List Pid) (mask : CpuSet)
    (flags : DromFlags) : SameEntries d (setprocessmask S c d pid parents mask flags).1 := by
  unfold setprocessmask
  repeat' split
  · exact setprocessmaskSelf_same S d _ mask flags
  · exact .refl d
  · exact .refl d
  · exact .refl d
  · exact setNewMask_same S d _ mask flags.returnStolen

theorem polldrom_same (c : Caller) (d : Shdata) (pid : Pid) (parents : List Pid) :
    SameEntries d (polldrom c d pid parents).1 := by
  unfold polldrom
  dsimp only
  repeat' split
  · exact .refl d
  · exact set_same rfl rfl
  · exact .refl d

/-- A call that enters no process: entries stay or are cleared. -/
structure Leaves (d d' : Shdata) : Prop where
  pid : ∀ i, (d'.processInfo i).pid = (d.processInfo i).pid ∨ (d'.processInfo i).pid = 0
  bounded : Bounded d → Bounded d'

theorem SameEntries.leaves (h : SameEntries d d1) : Leaves d d1 :=
  ⟨fun i => .inl (h.pid i), fun hb => hb.same h⟩

theorem finalize_leaves (S : System) (c : Caller) (d : Shdata) (pid : Pid) (parents : List Pid) (returnStolen : Bool)
    (hinit : d.initialized = true) : Leaves d (finalize S c d pid parents returnStolen).1 := by
  unfold finalize
  split
  · exact (SameEntries.refl d).leaves
  · rename_i p _
    have hs := unregisterMask_same S d p (d.processInfo p).effective returnStolen
    have hw : Writes d ((unregisterMask S d p (d.processInfo p).effective returnStolen).set p {}) p 0 :=
      hs.trans_writes (writes_set rfl)
    refine ⟨fun i => ?_, fun hb => hb.writes hw (hs.initialized.trans hinit) (fun h => absurd rfl h) hs.num.ge⟩
    by_cases hip : i = p
    · exact .inr (hip ▸ hw.slot)
    · exact .inl (hw.other i hip)

theorem closeShmem_leaves (d : Shdata) : Leaves d (closeShmem d).1 := by
  unfold closeShmem
  split
  · exact ⟨fun _ => .inr rfl, fun _ => ⟨fun _ _ => rfl, fun _ => rfl⟩⟩
  · exact (SameEntries.refl d).leaves

theorem extInit_leaves (S : System) (c : Caller) (d : Shdata) : Leaves d (extInit S c d).1 := by
  unfold extInit
  split
  · rename_i hinit
    refine ⟨fun _ => .inl rfl, fun hb => ⟨fun i _ => hb.empty i ?_, fun h => by cases h⟩⟩
    rw [hb.fresh (by simpa using hinit)]
    exact Nat.zero_le i
  · exact (SameEntries.refl d).leaves

theorem attached {P : Shdata → Prop} {r : Shdata × Output} (h : P d) (hr : d.initialized = true → P r.1) :
    P (if !d.initialized then (d, { error := .errNoshmem }) else r).1 := by
  split
  · exact h
  · rename_i hinit
    exact hr (by simpa using hinit)

theorem exec_bounded (S : System) (c : Caller) (call : Call) (hb : Bounded d) : Bounded (exec S c d call).1 := by
  cases call with
  | init pid preinitPid mask sharing => exact (init_cases S c pid preinitPid mask sharing hb).1
  | extInit => exact (extInit_leaves S c d).bounded hb
  | preinit pid mask flags => exact attached hb fun hinit => (preinit_cases S c pid mask flags hb hinit).1
  | finalize pid parents returnStolen =>
    exact attached hb fun hinit => (finalize_leaves S c d pid parents returnStolen hinit).bounded hb
  | recoverStolenCpus pid parents => exact attached hb fun _ => hb.same (recoverStolenCpus_same S c d pid parents)
  | getprocessmask pid parents => exact attached hb fun _ => hb.same (getprocessmask_same c d pid parents)
  | setprocessmask pid parents mask flags =>
    exact attached hb fun _ => hb.same (setprocessmask_same S c d pid parents mask flags)
  | polldrom pid parents => exact attached hb fun _ => hb.same (polldrom_same c d pid parents)
  | closeShmem => exact attached hb fun _ => (closeShmem_leaves d).bounded hb

theorem reachable_bounded {adm : Caller → Shdata → Call → Prop} (h : Reachable S adm d) : Bounded d := by
  refine Lib.Run.invariant h ⟨fun _ _ => rfl, fun _ => rfl⟩ ?_
  rintro d d' hb ⟨c, call, -⟩
  exact exec_bounded S c call hb

end Dlb.Procinfo

import Dlb.Procinfo.Entries

/-!
# Who notices a second registration

The search of an init ends once it has an empty slot and, if it needs one, the preregistered process; a preinit takes
the first empty slot. An entry of the same process further down is not seen (`Hidden`), and the process is registered
twice. An init that inherits from the preregistration of its own pid enters it twice when it gets a slot of its own
(`Splits`). These are the only ways: in runs without them no two slots hold the same process, and a registered process
is refused exactly when its entry is not hidden (`unique_registration`).
-/

namespace Dlb.Procinfo

open List

variable {S : System} {c : Caller} {d d' : Shdata} {pid preinitPid : Pid} {mask : CpuSet} {sharing : Bool} {i p : ℕ}

def Unique (d : Shdata) : Prop :=
  ∀ i j, (d.processInfo i).pid ≠ 0 → (d.processInfo i).pid = (d.processInfo j).pid → i = j

/-- The process is registered in slot `i`, not merely preregistered for the init that inherits from it. -/
def Taken (d : Shdata) (pid preinitPid : Pid) (i : ℕ) : Prop :=
  (d.processInfo i).pid = pid ∧ ¬(pid = preinitPid ∧ (d.processInfo i).preregistered = true)

/-- An init finds everything it needs before slot `i`. -/
def Hidden (d : Shdata) (preinitPid : Pid) (i : ℕ) : Prop :=
  (∃ j, j < i ∧ (d.processInfo j).pid = 0) ∧
  (preinitPid = 0 ∨ ∃ k, k < i ∧ (d.processInfo k).pid = preinitPid ∧ (d.processInfo k).preregistered = true)

/-- The caller agrees with the shared memory on its size and on CPU sharing. -/
def Agrees (c : Caller) (d : Shdata) (sharing : Bool) : Prop :=
  d.maxProcesses = c.maxProcesses ∧ (d.cpuSharingUnknown = true ∨ d.allowCpuSharing = sharing)

/-- The call returns `DLB_ERR_INIT` and leaves the table as it is. -/
def Refuses (d : Shdata) (r : Shdata × Output) : Prop :=
  r.2.error = .errInit ∧ r.1.processInfo = d.processInfo ∧ r.1.numProcesses = d.numProcesses ∧
    r.1.freeMask = d.freeMask

/-! ## The search -/

theorem Found.all_iff {found : Option ℕ × Option ℕ} (hf : Found d preinitPid i found) :
    allFound preinitPid found = true ↔ Hidden d preinitPid i := by
  obtain ⟨e, q⟩ := found
  simp only [allFound, Bool.and_eq_true, Bool.or_eq_true, decide_eq_true_eq]
  constructor
  · rintro ⟨he, hq⟩
    obtain ⟨j, rfl⟩ := Option.isSome_iff_exists.mp he
    refine ⟨⟨j, hf.empty j rfl⟩, hq.imp_right fun hq => ?_⟩
    obtain ⟨k, rfl⟩ := Option.isSome_iff_exists.mp hq
    obtain ⟨hlt, -, hpid, hreg⟩ := hf.preinit k rfl
    exact ⟨k, hlt, hpid, hreg⟩
  · rintro ⟨⟨j, hlt, hz⟩, hpre⟩
    constructor
    · by_contra he
      exact hf.noEmpty (by simpa using he) j hlt hz
    · by_cases h0 : preinitPid = 0
      · exact .inl h0
      · obtain ⟨k, hk, hpid, -⟩ := hpre.resolve_left h0
        right
        by_contra hq
        exact hf.noPreinit (by simpa using hq) h0 k hk hpid

theorem visitSlot_taken (found : Option ℕ × Option ℕ) (hpid : pid ≠ 0) (ht : Taken d pid preinitPid i) :
    visitSlot d pid preinitPid found i = .error .errInit := by
  obtain ⟨hpi, hself⟩ := ht
  unfold visitSlot
  rw [if_neg (by rw [hpi]; exact fun h => hpid h.2)]
  split
  · rename_i h
    rw [if_neg fun hreg => hself ⟨by rw [← hpi]; exact h.2.2, hreg⟩]
  · rfl

theorem findSlots_not_preregistered {k n : ℕ} (hu : Unique d) (hk : k < n) (h0 : preinitPid ≠ 0)
    (hkp : (d.processInfo k).pid = preinitPid) (hreg : (d.processInfo k).preregistered ≠ true) :
    ∃ error, findSlots d pid preinitPid (range n) (none, none) = .error error := by
  cases h : findSlots d pid preinitPid (range n) (none, none) with
  | error error => exact ⟨error, rfl⟩
  | ok found =>
    have hf := findSlots_found h
    cases hq : found.2 with
    | none => exact absurd hkp (hf.noPreinit hq h0 k hk)
    | some q =>
      obtain ⟨-, -, hqp, hqreg⟩ := hf.preinit q hq
      have hkq := hu k q (by rw [hkp]; exact h0) (by rw [hkp, hqp])
      exact absurd (hkq ▸ hqreg) hreg

theorem range_split {n : ℕ} (hi : i < n) : ∃ rest, range n = range i ++ i :: rest := by
  obtain ⟨m, rfl⟩ : ∃ m, n = i + (m + 1) := ⟨n - i - 1, by omega⟩
  rw [range_add, range_succ_eq_map]
  exact ⟨_, rfl⟩

theorem findSlots_taken (hu : Unique d) (hi : i < d.numProcesses) (hpid : pid ≠ 0) (ht : Taken d pid preinitPid i) :
    (∃ error, findSlots d pid preinitPid (range d.numProcesses) (none, none) = .error error) ↔
      ¬Hidden d preinitPid i := by
  have hbefore : ∀ j, j < i → (d.processInfo j).pid ≠ pid := by
    intro j hj he
    have := hu i j (by rw [ht.1]; exact hpid) (by rw [ht.1, he])
    omega
  obtain ⟨rest, hrange⟩ := range_split hi
  rw [hrange, findSlots_append d pid preinitPid _ _ (allFound_none preinitPid)]
  by_cases hpre : ∀ k, k < i → preinitPid ≠ 0 → (d.processInfo k).pid = preinitPid →
      (d.processInfo k).preregistered = true
  · obtain ⟨found, hfound⟩ := findSlots_isOk hbefore hpre
    rw [hfound, ← (findSlots_found hfound).all_iff]
    dsimp only
    cases hall : allFound preinitPid found with
    | true => simp
    | false => simp [findSlots, visitSlot_taken found hpid ht]
  · push Not at hpre
    obtain ⟨k, hk, h0, hkp, hreg⟩ := hpre
    obtain ⟨error, herror⟩ : ∃ error, findSlots d pid preinitPid (range _) (none, none) = .error error :=
      findSlots_not_preregistered hu hk h0 hkp hreg
    rw [herror]
    refine iff_of_true ⟨error, rfl⟩ ?_
    rintro ⟨-, hz | ⟨k', -, hkp', hreg'⟩⟩
    · exact h0 hz
    · have hkk := hu k k' (by rw [hkp]; exact h0) (by rw [hkp, hkp'])
      exact hreg (hkk ▸ hreg')

/-! ## A registered process -/

theorem openShmem_agrees (hinit : d.initialized = true) (ha : Agrees c d sharing) :
    ∃ d1, openShmem S c d sharing = .ok d1 := by
  obtain ⟨hmax, hsharing⟩ := ha
  unfold openShmem
  rw [if_neg (by simp [hinit]), if_neg (not_not.mpr hmax)]
  split
  · exact ⟨_, rfl⟩
  · rename_i hunknown
    rw [if_neg (not_not.mpr (hsharing.resolve_left hunknown))]
    exact ⟨_, rfl⟩

theorem agrees_of_openShmem {d1 : Shdata} (hinit : d.initialized = true) (h : openShmem S c d sharing = .ok d1) :
    Agrees c d sharing := by
  unfold openShmem at h
  rw [if_neg (by simp [hinit])] at h
  split at h
  · cases h
  · rename_i hmax
    refine ⟨not_not.mp hmax, ?_⟩
    split at h
    · rename_i hunknown
      exact .inl hunknown
    · split at h
      · cases h
      · rename_i hs
        exact .inr (not_not.mp hs)

theorem Opened.search_iff {d1 : Shdata} (ho : Opened S sharing d d1) (hb : Bounded d) (hu : Unique d) (hpid : pid ≠ 0)
    (ht : Taken d pid preinitPid i) :
    (∃ error, findSlots d1 pid preinitPid (range d1.numProcesses) (none, none) = .error error) ↔
      ¬Hidden d preinitPid i := by
  have hu1 : Unique d1 := by
    unfold Unique
    rw [ho.table]
    exact hu
  have ht1 : Taken d1 pid preinitPid i := by
    unfold Taken
    rw [ho.table]
    exact ht
  have hi : i < d1.numProcesses := by
    rw [ho.num hb]
    exact hb.lt_num (by rw [ht.1]; exact hpid)
  rw [findSlots_taken hu1 hi hpid ht1]
  unfold Hidden
  rw [ho.table]

theorem init_error_of_found {d1 : Shdata} {found : Option ℕ × Option ℕ} (ho : openShmem S c d sharing = .ok d1)
    (hf : findSlots d1 pid preinitPid (range d1.numProcesses) (none, none) = .ok found) :
    (init S c d pid preinitPid mask sharing).2.error ≠ .errInit := by
  unfold init
  rw [ho]
  dsimp only
  rw [hf]
  dsimp only
  split
  · split
    · simp
    · exact (newProcess_cases S d1 pid mask _).2.2.1
  · exact inheritProcess_error S d1 pid mask _ _

theorem init_refuses_iff (hb : Bounded d) (hu : Unique d) (hpid : pid ≠ 0) (ha : Agrees c d sharing)
    (ht : Taken d pid preinitPid i) :
    Refuses d (init S c d pid preinitPid mask sharing) ↔ ¬Hidden d preinitPid i := by
  have hne : (d.processInfo i).pid ≠ 0 := by rw [ht.1]; exact hpid
  have hinit := hb.initialized hne
  obtain ⟨d1, hopen⟩ := openShmem_agrees (S := S) hinit ha
  have ho := openShmem_opened hopen
  rw [← ho.search_iff hb hu hpid ht]
  cases hfind : findSlots d1 pid preinitPid (range d1.numProcesses) (none, none) with
  | error error =>
    obtain rfl := findSlots_error _ hfind
    refine iff_of_true ?_ ⟨_, rfl⟩
    unfold init
    rw [hopen]
    dsimp only
    rw [hfind]
    exact ⟨rfl, ho.table, (ho.old hinit).1, (ho.old hinit).2⟩
  | ok found =>
    refine iff_of_false (fun h => ?_) (by rintro ⟨_, ⟨⟩⟩)
    exact init_error_of_found hopen hfind h.1

theorem stealLoop_error (S : System) (newOwner : ℕ) (mask : CpuSet) (dryRun : Bool) (ps : List ℕ) (d : Shdata)
    (left : CpuSet) : (stealLoop S newOwner mask dryRun ps d left).2.2 ≠ .errInit := by
  induction ps generalizing d left with
  | nil => simp [stealLoop]
  | cons p ps ih =>
    unfold stealLoop
    dsimp only
    repeat' split
    · simp
    · simp
    · exact ih _ _
    · exact ih _ _

theorem stealMask_error (S : System) (d : Shdata) (newOwner : ℕ) (mask : CpuSet) (dryRun : Bool) :
    (stealMask S d newOwner mask dryRun).2 ≠ .errInit := by
  have hloop := stealLoop_error S newOwner mask dryRun (range d.numProcesses) d mask
  have herror : ∀ left error, error ≠ .errInit → stealError left error ≠ .errInit := by
    intro left error h
    unfold stealError
    split
    · simp
    · exact h
  unfold stealMask
  dsimp only
  repeat' split
  · simp
  all_goals exact herror _ _ hloop

theorem setNewMask_error (S : System) (d : Shdata) (p : ℕ) (mask : CpuSet) (returnStolen : Bool) :
    (setNewMask S d p mask returnStolen).2.error ≠ .errInit := by
  unfold setNewMask
  dsimp only
  repeat' split
  · simp
  · exact stealMask_error S d p _ true
  · exact stealMask_error S _ p _ false
  · rcases registerMask_error S _ _ (cpusToAcquire S d mask) with h | h <;> rw [h] <;> simp
  · simp

theorem preregister_error (S : System) (d : Shdata) (pid : Pid) (mask : CpuSet) (flags : DromFlags) (p : ℕ) :
    (preregister S d pid mask flags p).2 ≠ .errInit := by
  have htake : ∀ d, (takeMask S d p mask flags).2 ≠ .errInit := by
    intro d
    unfold takeMask
    split
    · exact setNewMask_error S d p mask flags.returnStolen
    · dsimp only
      rcases registerMask_error S d (d.processInfo p) mask with h | h <;> rw [h] <;> simp
  unfold preregister
  dsimp only
  split
  · exact htake _
  · simp

theorem preinit_refuses_iff {flags : DromFlags} (hpid : pid ≠ 0) (hi : i < c.maxProcesses)
    (hu : Unique d) (hpi : (d.processInfo i).pid = pid) :
    Refuses d (preinit S c d pid mask flags) ↔ ∀ j, j < i → (d.processInfo j).pid ≠ 0 := by
  unfold preinit
  split
  · rename_i hnone
    have := Lib.scan_none hnone hi
    simp [hpi] at this
  · rename_i p hscan
    obtain ⟨-, hp, hbefore⟩ := Lib.scan_some hscan
    simp only [decide_eq_true_eq, decide_eq_false_iff_not, not_or] at hp hbefore
    have hle : p ≤ i := by
      by_contra hlt
      exact (hbefore i (not_le.mp hlt)).1 hpi
    split
    · rename_i hpp
      have hpi' : p = i := hu p i (by rw [hpp]; exact hpid) (by rw [hpp, hpi])
      subst hpi'
      exact iff_of_true ⟨rfl, rfl, rfl, rfl⟩ fun j hj => (hbefore j hj).2
    · rename_i hpp
      have hz := hp.resolve_left hpp
      refine iff_of_false (fun h => ?_) fun h => ?_
      · exact preregister_error S d pid mask flags p h.1
      · refine h p (lt_of_le_of_ne hle fun he => hpp ?_) hz
        rw [he, hpi]

/-! ## Runs -/

/-- The calls that do not register a process twice. An init sees the entry of the process, and does not split the
preregistration of its own pid; a preinit sees the entry of the process. -/
def Noticed (S : System) (c : Caller) (d : Shdata) : Call → Prop
  | .init pid preinitPid mask sharing => pid ≠ 0 → Agrees c d sharing →
      (∀ i, Taken d pid preinitPid i → ¬Hidden d preinitPid i) ∧
      (pid = preinitPid → ∀ q, (d.processInfo q).pid = pid → (d.processInfo q).preregistered = true →
        ¬Splits S c.maxProcesses sharing d mask q)
  | .preinit pid _ _ => pid ≠ 0 → ∀ i, (d.processInfo i).pid = pid → ∀ j, j < i → (d.processInfo j).pid ≠ 0
  | _ => True

theorem unique_of_same (hu : Unique d) (h : ∀ i, (d'.processInfo i).pid = (d.processInfo i).pid) : Unique d' := by
  intro i j
  rw [h i, h j]
  exact hu i j

theorem unique_of_leaves (hu : Unique d) (h : Leaves d d') : Unique d' := by
  intro i j hi hij
  rcases h.pid i with hi' | hi'
  · rcases h.pid j with hj' | hj'
    · rw [hi'] at hi hij
      rw [hj'] at hij
      exact hu i j hi hij
    · rw [hij, hj'] at hi
      exact absurd rfl hi
  · exact absurd hi' hi

theorem unique_of_writes (hu : Unique d) (hw : Writes d d' p pid)
    (h : pid ≠ 0 → ∀ i, i ≠ p → (d.processInfo i).pid ≠ pid) : Unique d' := by
  intro i j hi hij
  by_cases hip : i = p
  · subst hip
    rw [hw.slot] at hi hij
    by_contra hji
    rw [hw.other j fun e => hji e.symm] at hij
    exact h hi j (fun e => hji e.symm) hij.symm
  · rw [hw.other i hip] at hi hij
    by_cases hjp : j = p
    · subst hjp
      rw [hw.slot] at hij
      exact absurd hij (h (hij ▸ hi) i hip)
    · rw [hw.other j hjp] at hij
      exact hu i j hi hij

theorem init_unique (hb : Bounded d) (hu : Unique d) (hn : Noticed S c d (.init pid preinitPid mask sharing)) :
    Unique (init S c d pid preinitPid mask sharing).1 := by
  rcases (init_cases S c pid preinitPid mask sharing hb).2 with hs | ⟨d1, found, p, hopen, hfind, hslot, hw⟩
  · exact unique_of_same hu hs
  refine unique_of_writes hu hw fun hpid i hip hpi => ?_
  have ho := openShmem_opened hopen
  have hne : (d.processInfo i).pid ≠ 0 := by rw [hpi]; exact hpid
  obtain ⟨hsee, hself⟩ := hn hpid (agrees_of_openShmem (hb.initialized hne) hopen)
  by_cases ht : Taken d pid preinitPid i
  · obtain ⟨error, he⟩ := (ho.search_iff hb hu hpid ht).mpr (hsee i ht)
    rw [he] at hfind
    cases hfind
  · -- the entry is the preregistration that the process inherits from
    obtain ⟨hpre, hreg⟩ : pid = preinitPid ∧ (d.processInfo i).preregistered = true := by
      by_contra hnot
      exact ht ⟨hpi, hnot⟩
    have hf := findSlots_found hfind
    cases hq : found.2 with
    | none =>
      refine hf.noPreinit hq (hpre ▸ hpid) i ?_ (by rw [ho.table, hpi, hpre])
      rw [ho.num hb]
      exact hb.lt_num hne
    | some q =>
      obtain ⟨-, -, hqp, -⟩ := hf.preinit q hq
      rw [ho.table] at hqp
      obtain rfl := hu i q hne (by rw [hpi, hqp, hpre])
      rcases hslot with hp | ⟨-, hsplit⟩
      · exact hip (Option.some.inj (hq.symm.trans hp))
      · exact hself hpre i hpi hreg (hsplit i hq)

theorem exec_unique {call : Call} (hb : Bounded d) (hu : Unique d) (hn : Noticed S c d call) :
    Unique (exec S c d call).1 := by
  cases call with
  | init pid preinitPid mask sharing => exact init_unique hb hu hn
  | extInit => exact unique_of_leaves hu (extInit_leaves S c d)
  | preinit pid mask flags =>
    refine attached hu fun hinit => ?_
    rcases (preinit_cases S c pid mask flags hb hinit).2 with hs | ⟨p, hz, hbefore, hw⟩
    · exact unique_of_same hu hs
    · refine unique_of_writes hu hw fun hpid i hip hpi => ?_
      rcases Nat.lt_or_gt_of_ne hip with hlt | hgt
      · exact hbefore i hlt hpi
      · exact hn hpid i hpi p hgt hz
  | finalize pid parents returnStolen =>
    exact attached hu fun hinit => unique_of_leaves hu (finalize_leaves S c d pid parents returnStolen hinit)
  | recoverStolenCpus pid parents =>
    exact attached hu fun _ => unique_of_same hu (recoverStolenCpus_same S c d pid parents).pid
  | getprocessmask pid parents => exact attached hu fun _ => unique_of_same hu (getprocessmask_same c d pid parents).pid
  | setprocessmask pid parents mask flags =>
    exact attached hu fun _ => unique_of_same hu (setprocessmask_same S c d pid parents mask flags).pid
  | polldrom pid parents => exact attached hu fun _ => unique_of_same hu (polldrom_same c d pid parents).pid
  | closeShmem => exact attached hu fun _ => unique_of_leaves hu (closeShmem_leaves d)

theorem reachable_unique (h : Reachable S (Noticed S) d) : Unique d := by
  refine (Lib.Run.invariant (P := fun d => Bounded d ∧ Unique d) h ⟨⟨fun _ _ => rfl, fun _ => rfl⟩, ?_⟩ ?_).2
  · intro i j hi
    exact absurd rfl hi
  · rintro d d' ⟨hb, hu⟩ ⟨c, call, hn⟩
    exact ⟨exec_bounded S c call hb, exec_unique hb hu hn⟩

/-- **Unique registration.** In every state that noticed calls reach, no two slots hold the same process; a registered
process that calls init or is preregistered is refused, and the table unchanged, exactly when its entry is not hidden
behind an empty slot. -/
theorem unique_registration (h : Reachable S (Noticed S) d) :
    Unique d ∧
    (∀ c pid preinitPid mask sharing i, pid ≠ 0 → Agrees c d sharing → Taken d pid preinitPid i →
      (Refuses d (exec S c d (.init pid preinitPid mask sharing)) ↔ ¬Hidden d preinitPid i)) ∧
    (∀ c pid mask flags i, pid ≠ 0 → i < c.maxProcesses → (d.processInfo i).pid = pid →
      (Refuses d (exec S c d (.preinit pid mask flags)) ↔ ∀ j, j < i → (d.processInfo j).pid ≠ 0)) := by
  have hb := reachable_bounded h
  have hu := reachable_unique h
  refine ⟨hu, ?_, ?_⟩
  · intro c pid preinitPid mask sharing i hpid ha ht
    exact init_refuses_iff hb hu hpid ha ht
  · intro c pid mask flags i hpid hi hpi
    have hinit := hb.initialized (i := i) (by rw [hpi]; exact hpid)
    simp only [exec, hinit, Bool.not_true, Bool.false_eq_true, if_false]
    exact preinit_refuses_iff hpid hi hu hpi

/-- After its first init, process `1` is refused a second one. -/
theorem unique_registration_second_init :
    Refuses (replay threeCpus [(caller, .init 1 0 {0} false)] {})
      (exec threeCpus caller (replay threeCpus [(caller, .init 1 0 {0} false)] {}) (.init 1 0 {1} false)) := by
  have hrun : Reachable threeCpus (Noticed threeCpus) (replay threeCpus [(caller, .init 1 0 {0} false)] {}) := by
    refine .tail .refl (.call caller (.init 1 0 {0} false) fun hpid _ => ⟨fun i ht => ?_, fun h => ?_⟩)
    · exact absurd ht.1.symm hpid
    · exact absurd h hpid
  refine ((unique_registration hrun).2.1 caller 1 0 {1} false 0 (by decide) ?_ ?_).mpr ?_
  · exact ⟨by decide, .inr (by decide)⟩
  · exact ⟨by decide, fun h => absurd h.1 (by decide)⟩
  · rintro ⟨⟨j, hj, -⟩, -⟩
    exact absurd hj (Nat.not_lt_zero j)

/-- The calls that register and unregister processes. -/
def Call.Registers : Call → Prop
  | .init .. | .preinit .. | .finalize .. => True
  | _ => False

/-- Process `2` registers behind process `1`, which leaves: the next init of process `2` takes the slot that is free
again. -/
theorem registered_twice :
    ¬∀ d, Reachable threeCpus (fun _ _ call => call.Registers) d → Unique d := by
  intro h
  have hrun := h (replay threeCpus [(caller, .init 1 0 {0} false), (caller, .init 2 0 {1} false),
    (caller, .finalize 1 [] false), (caller, .init 2 0 {0} false)] {})
    (replay_run fun _ call hc => by
      simp only [mem_cons, not_mem_nil, or_false] at hc
      rcases hc with rfl | rfl | rfl | rfl <;> exact trivial)
  have := hrun 0 1 (by decide) (by decide)
  cases this

end Dlb.Procinfo

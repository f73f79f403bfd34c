import Dlb.Lib.Run
import Dlb.Lib.Table
import Dlb.Support.Atomic
import Dlb.Support.MaskText
import Mathlib.Data.Finset.Sort

/-!
# The thread table of role shift

`omptm_role_shift.c`: `cpu_by_id` has the CPU of each thread, and grows when a CPU without thread is enabled. Its first
`registered_threads` entries count; these start with all threads of the runtime, of which only the primary one has an
entry. A missing CPU, `-1`, is `none`, also as an index of `cpu_data`. Each function returns the positions of `cpu_by_id`
that it writes.

The calls of LeWI and of the runtime are left out; what LeWI does about them are later callbacks. Blocking calls are
outside of parallel regions.

* `RoleShift.Valid`: no CPU has two positions, and `get_id_from_cpu` finds the position of each CPU.
-/

namespace Dlb.Omptm

open Function

/-- The bits of `cpu_status_t`. `OWN` has none. -/
inductive OwnershipBit where
  | unknown | lent | borrowed
deriving DecidableEq

/-- `cpu_data_t` -/
structure CpuData where
  ownership : Finset OwnershipBit := {.unknown}
  fa : Bool := false

/-- What `omptm_role_shift__init` sets and nothing changes. -/
structure RoleShiftOptions where
  systemSize : ℕ
  lewi : Bool
  lend : Bool
  processMask : CpuSet

structure RoleShift where
  numFreeAgents : ℤ
  registeredThreads : ℕ
  pendingTasks : ℕ := 0
  cpuData : Option ℕ → CpuData
  cpuById : ℕ → Option ℕ

namespace RoleShift

variable (o : RoleShiftOptions) (s : RoleShift)

/-- `get_id_from_cpu` -/
def getIdFromCpu (cpuid : Option ℕ) : Option ℕ := Lib.scan s.registeredThreads fun i => s.cpuById i = cpuid

def setCpu (cpuid : Option ℕ) (data : CpuData) : RoleShift := { s with cpuData := update s.cpuData cpuid data }

def setId (i : ℕ) (cpuid : Option ℕ) : RoleShift := { s with cpuById := update s.cpuById i cpuid }

/-- `cb_enable_cpu` -/
def cbEnableCpu (cpuid : Option ℕ) : RoleShift × List ℕ :=
  let ownership := (casBit (s.cpuData cpuid).ownership {.lent} ∅).1
  let s := s.setCpu cpuid { s.cpuData cpuid with ownership := (casBit ownership {.unknown} {.borrowed}).1 }
  match s.getIdFromCpu cpuid with
  | some _ =>
    -- a thread was running here previously
    (if (s.cpuData cpuid).fa then { s with numFreeAgents := s.numFreeAgents + 1 } else s, [])
  | none =>
    -- ask for a new free agent
    let s := s.setCpu cpuid { s.cpuData cpuid with fa := false }
    ({ s.setId s.registeredThreads cpuid with
        numFreeAgents := s.numFreeAgents + 1, registeredThreads := s.registeredThreads + 1 },
      [s.registeredThreads])

/-- `cb_disable_cpu` -/
def cbDisableCpu (cpuid : Option ℕ) : RoleShift :=
  let ownership := (s.cpuData cpuid).ownership
  if ownership ≠ ∅ ∧ ownership ≠ {.borrowed} then s
  else
    let lent := (casBit ownership ∅ {.lent}).1
    let s := s.setCpu cpuid { s.cpuData cpuid with ownership := (casBit lent {.borrowed} {.unknown}).1 }
    if (s.cpuData cpuid).fa ∧ (s.getIdFromCpu cpuid).isSome then { s with numFreeAgents := s.numFreeAgents - 1 } else s

/-- `omptm_role_shift__IntoBlockingCall`, for one CPU. -/
def lendInBlockingCall (globalTid : ℕ) (i : ℕ) : RoleShift :=
  let ownership := (s.cpuData (some i)).ownership
  if ownership = ∅ then
    -- just change the status for the thread calling MPI
    if s.cpuById globalTid = some i then s.setCpu (some i) { s.cpuData (some i) with ownership := {.lent} }
    else s.cbDisableCpu (some i)
  else if ownership = {.borrowed} ∧ i ∈ o.processMask then
    s.setCpu (some i) { s.cpuData (some i) with ownership := {.unknown} }
  else s

/-- `omptm_role_shift__IntoBlockingCall` -/
def intoBlockingCall (globalTid : ℕ) : RoleShift :=
  if o.lewi then (List.range o.systemSize).foldl (fun s i => s.lendInBlockingCall o globalTid i) s else s

/-- `omptm_role_shift__OutOfBlockingCall` -/
def outOfBlockingCall (globalTid : ℕ) : RoleShift × List ℕ :=
  if o.lewi then s.cbEnableCpu (s.cpuById globalTid) else (s, [])

/-- `mu_get_single_cpu` -/
def muGetSingleCpu (mask : CpuSet) : Option ℕ := if mask.card = 1 then (mask.sort (· ≤ ·)).head? else none

/-- What LeWI answers to `omptm_role_shift__thread_begin`: `DLB_CheckCpuAvailability` and `DLB_ReturnCpu`, as a test for
`DLB_ERR_PERM`. -/
structure Answers where
  reclaimed : Bool
  returnRefused : Bool

/-- A free agent begins on a CPU that was assigned to it. -/
def beginAssigned (cpuid : Option ℕ) (a : Answers) : RoleShift :=
  let s := s.setCpu cpuid { s.cpuData cpuid with fa := true }
  if o.lewi then
    if a.reclaimed then if a.returnRefused then s.cbDisableCpu cpuid else s
    else if s.pendingTasks = 0 then s.cbDisableCpu cpuid
    else s
  else s

/-- `omptm_role_shift__thread_begin` of a free agent with the given affinity mask. It aborts if there are more threads
than CPUs. -/
def threadBegin (globalTid : ℕ) (affinity : CpuSet) (a : Answers) : RoleShift × List ℕ :=
  if o.systemSize < s.registeredThreads then (s, [])
  else
    let cpuid := s.cpuById globalTid
    let ownership := (s.cpuData cpuid).ownership
    if cpuid ≠ none ∧ ownership ≠ ∅ ∧ ownership ≠ {.lent} then
      ((s.setId globalTid cpuid).beginAssigned o cpuid a, [globalTid])
    else
      match muGetSingleCpu affinity with
      | some cpuid => ((s.setId globalTid (some cpuid)).setCpu (some cpuid) { s.cpuData (some cpuid) with fa := true },
          [globalTid])
      | none => (s, [])

/-- The data of a CPU after `omptm_role_shift__init`. -/
def initialCpu (cpuid : Option ℕ) : CpuData :=
  match cpuid with
  | some i => { ownership := if i ∈ o.processMask then ∅ else {.unknown} }
  | none => {}

/-- `omptm_role_shift__init`, with the default number of threads and the free agents of the runtime. -/
def init (defaultNumThreads numFreeAgents : ℕ) : RoleShift where
  numFreeAgents := numFreeAgents
  registeredThreads := max defaultNumThreads numFreeAgents
  cpuData := initialCpu o
  cpuById := update (fun _ => none) 0 ((List.range o.systemSize).find? (· ∈ o.processMask))

/-! ## Runs -/

/-- The callbacks of LeWI, blocking calls and the beginning of free agents, with the thread that they are of. -/
inductive Event where
  | enable (cpuid : ℕ)
  | disable (cpuid : ℕ)
  | intoBlockingCall (globalTid : ℕ)
  | outOfBlockingCall (globalTid : ℕ)
  | threadBegin (globalTid : ℕ) (affinity : CpuSet) (a : Answers)

/-- The state after an event, and the positions of `cpu_by_id` that it writes. -/
def exec : Event → RoleShift × List ℕ
  | .enable cpuid => s.cbEnableCpu (some cpuid)
  | .disable cpuid => (s.cbDisableCpu (some cpuid), [])
  | .intoBlockingCall globalTid => (s.intoBlockingCall o globalTid, [])
  | .outOfBlockingCall globalTid => s.outOfBlockingCall o globalTid
  | .threadBegin globalTid affinity a => s.threadBegin o globalTid affinity a

def next (e : Event) : RoleShift := (s.exec o e).1

/-- No CPU has two positions, and each CPU of a registered position is found there. -/
structure Valid : Prop where
  unique : ∀ i j c, s.cpuById i = some c → s.cpuById j = some c → i = j
  found : ∀ c i, s.getIdFromCpu (some c) = some i ↔ i < s.registeredThreads ∧ s.cpuById i = some c

/-- An event writes inside of `cpu_by_id`, which is valid then. -/
def Keeps (e : Event) : Prop := (∀ i ∈ (s.exec o e).2, i < o.systemSize) ∧ (s.next o e).Valid

/-- Position `i` can get a CPU: it is inside of the table, and the CPU is at no other one. -/
def Fits (i : ℕ) (cpuid : Option ℕ) : Prop :=
  i < o.systemSize ∧ ∀ c, cpuid = some c → ∀ j, s.cpuById j = some c → j = i

/-- A CPU that is enabled has a thread, or its new entry fits. -/
def EnableFits (cpuid : Option ℕ) : Prop := s.getIdFromCpu cpuid = none → s.Fits o s.registeredThreads cpuid

def EntryFits : Event → Prop
  | .enable cpuid => s.EnableFits o (some cpuid)
  | .outOfBlockingCall globalTid => o.lewi = true → s.EnableFits o (s.cpuById globalTid)
  | .threadBegin globalTid affinity _ =>
    s.registeredThreads ≤ o.systemSize →
      if s.cpuById globalTid ≠ none ∧ (s.cpuData (s.cpuById globalTid)).ownership ≠ ∅ ∧
          (s.cpuData (s.cpuById globalTid)).ownership ≠ {.lent} then globalTid < o.systemSize
      else muGetSingleCpu affinity ≠ none → s.Fits o globalTid (muGetSingleCpu affinity)
  | _ => True

variable {o : RoleShiftOptions} {s s1 s2 : RoleShift}

/-! ## What leaves the table alone -/

structure SameTable (s s1 : RoleShift) : Prop where
  ids : s1.cpuById = s.cpuById
  registered : s1.registeredThreads = s.registeredThreads

theorem SameTable.refl (s : RoleShift) : SameTable s s := ⟨rfl, rfl⟩

theorem SameTable.trans (h1 : SameTable s s1) (h2 : SameTable s1 s2) : SameTable s s2 :=
  ⟨h2.ids.trans h1.ids, h2.registered.trans h1.registered⟩

theorem cbDisableCpu_same (cpuid : Option ℕ) : SameTable s (s.cbDisableCpu cpuid) := by
  unfold cbDisableCpu
  dsimp only
  split
  · exact .refl s
  split
  · exact ⟨rfl, rfl⟩
  · exact ⟨rfl, rfl⟩

theorem lendInBlockingCall_same (globalTid i : ℕ) : SameTable s (s.lendInBlockingCall o globalTid i) := by
  unfold lendInBlockingCall
  dsimp only
  split
  · split
    · exact ⟨rfl, rfl⟩
    · exact cbDisableCpu_same _
  split
  · exact ⟨rfl, rfl⟩
  · exact .refl s

theorem intoBlockingCall_same (globalTid : ℕ) : SameTable s (s.intoBlockingCall o globalTid) := by
  unfold intoBlockingCall
  split
  · exact List.foldlRecOn _ _ (SameTable.refl s) fun _ h i _ => h.trans (lendInBlockingCall_same globalTid i)
  · exact .refl s

theorem beginAssigned_same (cpuid : Option ℕ) (a : Answers) : SameTable s (s.beginAssigned o cpuid a) := by
  have hset (data : CpuData) : SameTable s (s.setCpu cpuid data) := ⟨rfl, rfl⟩
  unfold beginAssigned
  dsimp only
  split
  · split
    · split
      · exact (hset _).trans (cbDisableCpu_same cpuid)
      · exact hset _
    split
    · exact (hset _).trans (cbDisableCpu_same cpuid)
    · exact hset _
  · exact hset _

/-! ## Valid tables -/

def Unique (s : RoleShift) : Prop := ∀ i j c, s.cpuById i = some c → s.cpuById j = some c → i = j

theorem valid_iff_unique : s.Valid ↔ s.Unique := by
  refine ⟨fun h => h.unique, fun h => ⟨h, fun c i => ?_⟩⟩
  constructor
  · intro hscan
    obtain ⟨hlt, hc, -⟩ := Lib.scan_some hscan
    exact ⟨hlt, of_decide_eq_true hc⟩
  · rintro ⟨hlt, hc⟩
    exact Lib.scan_of_unique hlt (decide_eq_true hc) fun j hj => h j i c (of_decide_eq_true hj) hc

theorem SameTable.valid (hsame : SameTable s s1) (h : s.Valid) : s1.Valid := by
  rw [valid_iff_unique] at h ⊢
  unfold Unique
  rw [hsame.ids]
  exact h

theorem unique_write_iff (h : s.Unique) (i : ℕ) (cpuid : Option ℕ) (hids : s1.cpuById = update s.cpuById i cpuid) :
    s1.Unique ↔ ∀ c, cpuid = some c → ∀ j, s.cpuById j = some c → j = i := by
  unfold Unique
  rw [hids]
  constructor
  · intro hu c hc j hj
    by_contra hji
    refine hji (hu j i c ?_ ?_)
    · rwa [update_of_ne hji]
    · rwa [update_self]
  · intro hother a b c ha hb
    by_cases hai : a = i
    · by_cases hbi : b = i
      · rw [hai, hbi]
      · rw [hai, update_self] at ha
        rw [update_of_ne hbi] at hb
        exact absurd (hother c ha b hb) hbi
    · rw [update_of_ne hai] at ha
      by_cases hbi : b = i
      · rw [hbi, update_self] at hb
        exact absurd (hother c hb a ha) hai
      · rw [update_of_ne hbi] at hb
        exact h a b c ha hb

theorem writes_iff (h : s.Valid) {i : ℕ} {cpuid : Option ℕ} (hids : s1.cpuById = update s.cpuById i cpuid) :
    ((∀ j ∈ [i], j < o.systemSize) ∧ s1.Valid) ↔ s.Fits o i cpuid := by
  rw [valid_iff_unique, unique_write_iff (valid_iff_unique.mp h) i cpuid hids]
  exact and_congr_left' (by simp)

theorem writes_none (hsame : SameTable s s1) (h : s.Valid) : (∀ j ∈ ([] : List ℕ), j < o.systemSize) ∧ s1.Valid :=
  ⟨nofun, hsame.valid h⟩

/-! ## Events -/

theorem cbEnableCpu_iff (h : s.Valid) (cpuid : Option ℕ) :
    ((∀ i ∈ (s.cbEnableCpu cpuid).2, i < o.systemSize) ∧ (s.cbEnableCpu cpuid).1.Valid) ↔ s.EnableFits o cpuid := by
  have hsame (data : CpuData) : (s.setCpu cpuid data).getIdFromCpu cpuid = s.getIdFromCpu cpuid := rfl
  unfold cbEnableCpu EnableFits
  dsimp only
  rw [hsame]
  cases s.getIdFromCpu cpuid with
  | some i =>
    refine iff_of_true (writes_none ?_ h) nofun
    dsimp only
    split
    · exact ⟨rfl, rfl⟩
    · exact ⟨rfl, rfl⟩
  | none =>
    rw [forall_prop_of_true rfl]
    exact writes_iff h rfl

theorem threadBegin_iff (h : s.Valid) (globalTid : ℕ) (affinity : CpuSet) (a : Answers) :
    s.Keeps o (.threadBegin globalTid affinity a) ↔ s.EntryFits o (.threadBegin globalTid affinity a) := by
  unfold Keeps next exec EntryFits threadBegin
  dsimp only
  by_cases hmany : o.systemSize < s.registeredThreads
  · rw [if_pos hmany]
    exact iff_of_true (writes_none (.refl s) h) fun hle => absurd hmany (not_lt.mpr hle)
  rw [if_neg hmany, forall_prop_of_true (not_lt.mp hmany)]
  split
  · -- the entry is written as it is
    have hids : ((s.setId globalTid (s.cpuById globalTid)).beginAssigned o (s.cpuById globalTid) a).cpuById =
        update s.cpuById globalTid (s.cpuById globalTid) := (beginAssigned_same _ a).ids
    rw [writes_iff h hids]
    refine and_iff_left fun c hc j hj => ?_
    exact h.unique j globalTid c hj hc
  · cases muGetSingleCpu affinity with
    | some cpuid =>
      rw [forall_prop_of_true (Option.some_ne_none cpuid)]
      exact writes_iff h rfl
    | none => exact iff_of_true (writes_none (.refl s) h) fun hne => absurd rfl hne

theorem keeps_iff (h : s.Valid) (e : Event) : s.Keeps o e ↔ s.EntryFits o e := by
  cases e with
  | enable cpuid => exact cbEnableCpu_iff h _
  | disable cpuid => exact iff_of_true (writes_none (cbDisableCpu_same _) h) trivial
  | intoBlockingCall globalTid => exact iff_of_true (writes_none (intoBlockingCall_same globalTid) h) trivial
  | outOfBlockingCall globalTid =>
    unfold Keeps next exec EntryFits outOfBlockingCall
    dsimp only
    split
    · rename_i hlewi
      rw [forall_prop_of_true hlewi]
      exact cbEnableCpu_iff h _
    · rename_i hlewi
      exact iff_of_true (writes_none (.refl s) h) fun h' => absurd h' hlewi
  | threadBegin globalTid affinity a => exact threadBegin_iff h globalTid affinity a

theorem init_valid (defaultNumThreads numFreeAgents : ℕ) : (init o defaultNumThreads numFreeAgents).Valid := by
  refine valid_iff_unique.mpr fun i j c hi hj => ?_
  have hzero : ∀ k, (init o defaultNumThreads numFreeAgents).cpuById k = some c → k = 0 := by
    intro k hk
    by_contra hk0
    unfold init at hk
    dsimp only at hk
    rw [update_of_ne hk0] at hk
    exact nomatch hk
  rw [hzero i hi, hzero j hj]

/-- **The thread table of role shift** is written inside of its bounds, and is a table of threads by CPU, exactly if each
new entry fits. -/
theorem thread_table_iff (o : RoleShiftOptions) (defaultNumThreads numFreeAgents : ℕ) (events : List Event) :
    Lib.Along (next o) (fun s e => s.Keeps o e) (init o defaultNumThreads numFreeAgents) events ↔
      Lib.Along (next o) (fun s e => s.EntryFits o e) (init o defaultNumThreads numFreeAgents) events :=
  Lib.Along.congr (I := Valid) (R := fun _ => True) (fun _ e h _ hfits => ((keeps_iff h e).mpr hfits).2)
    (fun _ e h _ => keeps_iff h e) _ events (init_valid defaultNumThreads numFreeAgents) fun _ _ => trivial

/-- Two CPUs, both of the process, which has two threads. The second one is enabled: its entry is beyond the table. -/
theorem thread_table_overrun : ¬ Lib.Along (next ⟨2, true, false, {0, 1}⟩) (fun s e => s.Keeps ⟨2, true, false, {0, 1}⟩ e)
    (init ⟨2, true, false, {0, 1}⟩ 2 0) [.disable 1, .enable 1] := by
  rintro ⟨-, ⟨hbounds, -⟩, -⟩
  exact absurd (hbounds 2 (by decide)) (by decide)

end RoleShift

end Dlb.Omptm

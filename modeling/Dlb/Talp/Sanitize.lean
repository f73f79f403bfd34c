import Mathlib.Data.List.FinRange
import Mathlib.Tactic.NormNum
import Dlb.Lib.Ieee

/-!
# Sanitizing the records

`sanitize_records` reads the counters of all records as `double`, also those of the monitors, which are `int64_t`; it clears
the negative ones and warns about them, and about the coefficients that are out of range. The name in the warning about a
monitor is looked up with the number of the rank.

* `sanitizeRecords_eq`, `sanitizeRecords_eq_none`: what the loops do with up to two ranks, and that they leave the table with
  more.
-/

namespace Dlb.Talp.Sanitize

open List Lib

/-! ## The records, as words -/

abbrev Double := BitVec 64

abbrev Single := BitVec 32

/-- `dlb_pop_metrics_t`; `rest` is what is not looked at. -/
structure PopMetrics (ρ : Type) where
  name : List Char
  cycles : Double := 0
  instructions : Double := 0
  parallelEfficiency : Single := 0
  mpiParallelEfficiency : Single := 0
  mpiCommunicationEfficiency : Single := 0
  mpiLoadBalance : Single := 0
  mpiLoadBalanceIn : Single := 0
  mpiLoadBalanceOut : Single := 0
  ompParallelEfficiency : Single := 0
  ompLoadBalance : Single := 0
  ompSchedulingEfficiency : Single := 0
  ompSerializationEfficiency : Single := 0
  deviceOffloadEfficiency : Single := 0
  gpuParallelEfficiency : Single := 0
  gpuLoadBalance : Single := 0
  gpuCommunicationEfficiency : Single := 0
  gpuOrchestrationEfficiency : Single := 0
  rest : ρ

/-- The monitor of a `process_record_t`, with an `int64_t` in each counter. -/
structure Monitor (σ : Type) where
  name : List Char
  cycles : BitVec 64 := 0
  instructions : BitVec 64 := 0
  rest : σ

/-- `region_record_t`, one allocation with a record for each rank. -/
structure RegionRecord (σ : Type) where
  name : List Char
  numMpiRanks : ℕ
  processRecords : Fin numMpiRanks → Monitor σ

/-- `field_t` -/
structure Field (R V : Type) where
  name : String
  get : R → V
  set : R → V → R

section Tables

variable (ρ σ : Type)

def countersFields : List (Field (PopMetrics ρ) Double) :=
  [⟨"cycles", (·.cycles), fun r v => { r with cycles := v }⟩,
   ⟨"instructions", (·.instructions), fun r v => { r with instructions := v }⟩]

def coeffFields : List (Field (PopMetrics ρ) Single) :=
  [⟨"parallel_efficiency", (·.parallelEfficiency), fun r v => { r with parallelEfficiency := v }⟩,
   ⟨"mpi_parallel_efficiency", (·.mpiParallelEfficiency), fun r v => { r with mpiParallelEfficiency := v }⟩,
   ⟨"mpi_communication_efficiency", (·.mpiCommunicationEfficiency), fun r v => { r with mpiCommunicationEfficiency := v }⟩,
   ⟨"mpi_load_balance", (·.mpiLoadBalance), fun r v => { r with mpiLoadBalance := v }⟩,
   ⟨"mpi_load_balance_in", (·.mpiLoadBalanceIn), fun r v => { r with mpiLoadBalanceIn := v }⟩,
   ⟨"mpi_load_balance_out", (·.mpiLoadBalanceOut), fun r v => { r with mpiLoadBalanceOut := v }⟩,
   ⟨"omp_parallel_efficiency", (·.ompParallelEfficiency), fun r v => { r with ompParallelEfficiency := v }⟩,
   ⟨"omp_load_balance", (·.ompLoadBalance), fun r v => { r with ompLoadBalance := v }⟩,
   ⟨"omp_scheduling_efficiency", (·.ompSchedulingEfficiency), fun r v => { r with ompSchedulingEfficiency := v }⟩,
   ⟨"omp_serialization_efficiency", (·.ompSerializationEfficiency), fun r v => { r with ompSerializationEfficiency := v }⟩,
   ⟨"device_offload_efficiency", (·.deviceOffloadEfficiency), fun r v => { r with deviceOffloadEfficiency := v }⟩,
   ⟨"gpu_parallel_efficiency", (·.gpuParallelEfficiency), fun r v => { r with gpuParallelEfficiency := v }⟩,
   ⟨"gpu_load_balance", (·.gpuLoadBalance), fun r v => { r with gpuLoadBalance := v }⟩,
   ⟨"gpu_communication_efficiency", (·.gpuCommunicationEfficiency), fun r v => { r with gpuCommunicationEfficiency := v }⟩,
   ⟨"gpu_orchestration_efficiency", (·.gpuOrchestrationEfficiency), fun r v => { r with gpuOrchestrationEfficiency := v }⟩]

/-- Also here the fields count as `double`. -/
def monitorCountersFields : List (Field (Monitor σ) Double) :=
  [⟨"cycles", (·.cycles), fun m v => { m with cycles := v }⟩,
   ⟨"instructions", (·.instructions), fun m v => { m with instructions := v }⟩]

end Tables

/-! ## The loops -/

inductive Warning where
  | counter (region : List Char) (name : String) (value : Double)
  | metric (region : List Char) (name : String) (value : Single)
  | suppressed (reported : ℕ)
deriving DecidableEq

/-- `warn_count`, and what has been printed. -/
structure Log where
  warnCount : ℕ := 0
  issued : List Warning := []

/-- `MAX_DETAILED_WARNINGS` -/
def maxDetailedWarnings : ℕ := 10

def Log.report (log : Log) (w : Warning) : Log where
  warnCount := log.warnCount + 1
  issued := log.issued ++
    if log.warnCount < maxDetailedWarnings then [w]
    else if log.warnCount = maxDetailedWarnings then [.suppressed log.warnCount]
    else []

/-- `*value < 0` -/
def Negative (value : Double) : Prop := Ieee.Lt 52 value 0#64

/-- `*value < -FLT_EPSILON || *value > 1.0f + FLT_EPSILON` -/
def OutOfRange (value : Single) : Prop := Ieee.Lt 23 value 0xB4000000#32 ∨ Ieee.Lt 23 0x3F800001#32 value

instance (value : Double) : Decidable (Negative value) := inferInstanceAs (Decidable (Ieee.Lt ..))

instance (value : Single) : Decidable (OutOfRange value) := inferInstanceAs (Decidable (_ ∨ _))

/-- `sanitize_counter` -/
def sanitizeCounter (valueName : String) (value : Double) (regionName : List Char) (log : Log) : Log × Double :=
  if Negative value then (log.report (.counter regionName valueName value), 0#64) else (log, value)

/-- `sanitize_coefficient` -/
def sanitizeCoefficient (valueName : String) (value : Single) (regionName : List Char) (log : Log) : Log :=
  if OutOfRange value then log.report (.metric regionName valueName value) else log

/-- `sanitize_counter` on a field of a record. -/
def Field.sanitize {R : Type} (field : Field R Double) (valueName : String) (regionName : List Char) (s : Log × R) :
    Log × R :=
  let (log, value) := sanitizeCounter valueName (field.get s.2) regionName s.1
  (log, field.set s.2 value)

/-- A list of records, each one changed in place. -/
def eachRecord {α : Type} (f : Log → α → Option (Log × α)) (log : Log) : List α → Option (Log × List α)
  | [] => some (log, [])
  | a :: l => do
    let (log, a) ← f log a
    let (log, l) ← eachRecord f log l
    return (log, a :: l)

section Loops

variable {ρ σ : Type}

def sanitizePopMetrics (log : Log) (record : PopMetrics ρ) : Option (Log × PopMetrics ρ) := do
  let s ← (range (countersFields ρ).length).foldlM
    (fun s i => do
      let field ← (countersFields ρ)[i]?
      return field.sanitize field.name s.2.name s) (log, record)
  let log ← (range (coeffFields ρ).length).foldlM
    (fun log i => do
      let field ← (coeffFields ρ)[i]?
      return sanitizeCoefficient field.name (field.get s.2) s.2.name log) s.1
  return (log, s.2)

variable (ρ)

/-- The loop for the monitor of a rank. The name comes from the table of the POP metrics. -/
def sanitizeMonitor (i : ℕ) (log : Log) (monitor : Monitor σ) : Option (Log × Monitor σ) :=
  (range (monitorCountersFields σ).length).foldlM
    (fun s j => do
      let field ← (monitorCountersFields σ)[j]?
      let named ← (countersFields ρ)[i]?
      return field.sanitize named.name s.2.name s) (log, monitor)

def sanitizeRank {n : ℕ} (s : Log × (Fin n → Monitor σ)) (i : ℕ) : Option (Log × (Fin n → Monitor σ)) :=
  if h : i < n then do
    let (log, monitor) ← sanitizeMonitor ρ i s.1 (s.2 ⟨i, h⟩)
    return (log, Function.update s.2 ⟨i, h⟩ monitor)
  else none

def sanitizeRegion (log : Log) (region : RegionRecord σ) : Option (Log × RegionRecord σ) := do
  let s ← (range region.numMpiRanks).foldlM (sanitizeRank ρ) (log, region.processRecords)
  return (s.1, { region with processRecords := s.2 })

/-- `sanitize_records`; there is no answer where an index leaves its table. -/
def sanitizeRecords (log : Log) (popMetrics : List (PopMetrics ρ)) (regions : List (RegionRecord σ)) :
    Option (Log × List (PopMetrics ρ) × List (RegionRecord σ)) := do
  let (log, popMetrics) ← eachRecord sanitizePopMetrics log popMetrics
  let (log, regions) ← eachRecord (sanitizeRegion ρ) log regions
  return (log, popMetrics, regions)

end Loops

/-! ## What the loops are for -/

section Spec

variable {ρ σ : Type}

/-- What comes of a list of warnings: ten of them, and one that there are more. -/
def limited (warnCount : ℕ) (warnings : List Warning) : List Warning :=
  warnings.take (maxDetailedWarnings - warnCount) ++
    if warnCount ≤ maxDetailedWarnings ∧ maxDetailedWarnings < warnCount + warnings.length then
      [.suppressed maxDetailedWarnings]
    else []

def PopMetrics.coefficients (r : PopMetrics ρ) : List (String × Single) :=
  (coeffFields ρ).map fun field => (field.name, field.get r)

/-- The warnings that a POP metrics record deserves. -/
def PopMetrics.reports (r : PopMetrics ρ) : List Warning :=
  (if Negative r.cycles then [.counter r.name "cycles" r.cycles] else []) ++
  (if Negative r.instructions then [.counter r.name "instructions" r.instructions] else []) ++
  (r.coefficients.filter fun c => OutOfRange c.2).map fun c => .metric r.name c.1 c.2

/-- A counter of a rank: its place, its name and its value. -/
structure Site where
  rank : ℕ
  index : ℕ
  region : List Char
  field : String
  value : BitVec 64

def Site.report (s : Site) : Warning := .counter s.region s.field s.value

def Monitor.sites (rank : ℕ) (m : Monitor σ) : List Site :=
  [⟨rank, 0, m.name, "cycles", m.cycles⟩, ⟨rank, 1, m.name, "instructions", m.instructions⟩]

/-- The counters of a region, in the order of the loops. -/
def RegionRecord.sites (region : RegionRecord σ) : List Site :=
  (finRange region.numMpiRanks).flatMap fun i => (region.processRecords i).sites i

/-- The counters of the ranks that are negative. -/
def negativeSites (regions : List (RegionRecord σ)) : List Site :=
  (regions.flatMap RegionRecord.sites).filter fun s => s.value.toInt < 0

/-- A counter of the POP metrics, before and after. -/
def DoubleCleared (before after : Double) : Prop := ¬Negative after ∧ (¬Negative before → after = before)

def IntCleared (before after : BitVec 64) : Prop := 0 ≤ after.toInt ∧ (0 ≤ before.toInt → after = before)

/-- Only the counters of a record change, and they are not negative afterwards. -/
def PopMetrics.Cleared (before after : PopMetrics ρ) : Prop :=
  after = { before with cycles := after.cycles, instructions := after.instructions } ∧
    DoubleCleared before.cycles after.cycles ∧ DoubleCleared before.instructions after.instructions

def Monitor.Cleared (before after : Monitor σ) : Prop :=
  after = { before with cycles := after.cycles, instructions := after.instructions } ∧
    IntCleared before.cycles after.cycles ∧ IntCleared before.instructions after.instructions

def RegionRecord.Cleared (before after : RegionRecord σ) : Prop :=
  ∃ records, after = { before with processRecords := records } ∧ ∀ i, (before.processRecords i).Cleared (records i)

/-- All indices are in their tables, all records are cleared, and each warning has the name of the field that it is about. -/
def SanitizedRight (log : Log) (popMetrics : List (PopMetrics ρ)) (regions : List (RegionRecord σ)) : Prop :=
  ∃ log' popMetrics' regions', sanitizeRecords ρ log popMetrics regions = some (log', popMetrics', regions') ∧
    List.Forall₂ PopMetrics.Cleared popMetrics popMetrics' ∧ List.Forall₂ RegionRecord.Cleared regions regions' ∧
    log'.issued = log.issued ++
      limited log.warnCount (popMetrics.flatMap PopMetrics.reports ++ (negativeSites regions).map Site.report)

end Spec

/-! ## The warnings -/

/-- The warnings of a run, one after the other. -/
def Log.reportAll (log : Log) (warnings : List Warning) : Log := warnings.foldl Log.report log

theorem Log.reportAll_append (log : Log) (ws ws' : List Warning) :
    log.reportAll (ws ++ ws') = (log.reportAll ws).reportAll ws' := foldl_append

theorem limited_nil (n : ℕ) : limited n [] = [] := by
  unfold limited
  rw [take_nil, if_neg (by rw [length_nil]; omega)]
  rfl

theorem limited_cons (n : ℕ) (w : Warning) (ws : List Warning) :
    limited n (w :: ws) =
      (if n < maxDetailedWarnings then [w] else if n = maxDetailedWarnings then [.suppressed n] else []) ++
        limited (n + 1) ws := by
  unfold limited
  rw [length_cons]
  obtain hlt | rfl | hgt := Nat.lt_trichotomy n maxDetailedWarnings
  · have htake : maxDetailedWarnings - n = maxDetailedWarnings - (n + 1) + 1 := by omega
    rw [if_pos hlt, htake, take_succ_cons, cons_append, singleton_append]
    have hmore : (n ≤ maxDetailedWarnings ∧ maxDetailedWarnings < n + (ws.length + 1)) ↔
        (n + 1 ≤ maxDetailedWarnings ∧ maxDetailedWarnings < n + 1 + ws.length) := by omega
    simp only [hmore]
  · rw [if_neg (Nat.lt_irrefl _), if_pos rfl, Nat.sub_self, if_pos (by omega), if_neg (by omega),
      Nat.sub_eq_zero_of_le (Nat.le_succ _)]
    rfl
  · rw [if_neg (by omega), if_neg (by omega), if_neg (by omega), if_neg (by omega), Nat.sub_eq_zero_of_le (by omega),
      Nat.sub_eq_zero_of_le (by omega)]
    rfl

theorem Log.reportAll_eq (ws : List Warning) : ∀ log : Log,
    log.reportAll ws = ⟨log.warnCount + ws.length, log.issued ++ limited log.warnCount ws⟩ := by
  induction ws with
  | nil =>
    intro log
    rw [limited_nil, append_nil]
    rfl
  | cons w ws ih =>
    intro log
    refine (ih (log.report w)).trans ?_
    unfold Log.report
    rw [limited_cons, append_assoc, length_cons, Nat.add_assoc, Nat.add_comm 1]

theorem limited_append_inj {n : ℕ} {ws vs vs' : List Warning} (hlen : vs.length = vs'.length) :
    limited n (ws ++ vs) = limited n (ws ++ vs') ↔
      vs.take (maxDetailedWarnings - n - ws.length) = vs'.take (maxDetailedWarnings - n - ws.length) := by
  unfold limited
  rw [length_append, length_append, hlen, append_left_inj, take_append, take_append,
    append_right_inj]

/-! ## The loops over the fields -/

theorem foldlM_range_getElem? {α β : Type} (f : β → α → β) (l : List α) (s : β) :
    (range l.length).foldlM (fun s i => do
      let a ← l[i]?
      return f s a) s = some (l.foldl f s) := by
  have htable : (range l.length).map (fun i => l[i]?) = l.map some :=
    ext_getElem (by rw [length_map, length_range, length_map]) fun i h _ => by
      rw [getElem_map, getElem_range, getElem_map]
      exact getElem?_eq_getElem _
  have hmap : ((range l.length).map fun i => l[i]?).foldlM (fun s o => o.bind fun a => some (f s a)) s =
      some (l.foldl f s) := by
    rw [htable, foldlM_map]
    exact foldlM_pure
  rw [foldlM_map] at hmap
  exact hmap

def cleared (value : Double) : Double := if Negative value then 0#64 else value

/-- The warning about a counter, if there is one. -/
def counterReport (regionName : List Char) (valueName : String) (value : Double) : List Warning :=
  if Negative value then [.counter regionName valueName value] else []

theorem Field.sanitize_eq {R : Type} (field : Field R Double) (valueName : String) (regionName : List Char) (log : Log)
    (r : R) :
    field.sanitize valueName regionName (log, r) =
      (log.reportAll (counterReport regionName valueName (field.get r)), field.set r (cleared (field.get r))) := by
  unfold Field.sanitize sanitizeCounter counterReport cleared
  dsimp only
  split <;> rfl

section Records

variable {ρ σ : Type}

def PopMetrics.cleared (r : PopMetrics ρ) : PopMetrics ρ :=
  { r with
    cycles := Sanitize.cleared r.cycles
    instructions := Sanitize.cleared r.instructions }

def Monitor.cleared (m : Monitor σ) : Monitor σ :=
  { m with
    cycles := Sanitize.cleared m.cycles
    instructions := Sanitize.cleared m.instructions }

theorem foldl_sanitizeCoefficient (r : PopMetrics ρ) (fields : List (Field (PopMetrics ρ) Single)) : ∀ log : Log,
    fields.foldl (fun log field => sanitizeCoefficient field.name (field.get r) r.name log) log =
      log.reportAll (((fields.map fun field => (field.name, field.get r)).filter fun c => OutOfRange c.2).map fun c =>
        .metric r.name c.1 c.2) := by
  induction fields with
  | nil => exact fun _ => rfl
  | cons field fields ih =>
    intro log
    rw [foldl_cons, ih, sanitizeCoefficient, map_cons, filter_cons]
    split
    · next h =>
      rw [if_pos (decide_eq_true h)]
      rfl
    · next h => rw [if_neg (by rw [decide_eq_true_iff]; exact h)]

theorem sanitizePopMetrics_eq (log : Log) (r : PopMetrics ρ) :
    sanitizePopMetrics log r = some (log.reportAll r.reports, r.cleared) := by
  have hcounters := foldlM_range_getElem?
    (fun s (field : Field (PopMetrics ρ) Double) => field.sanitize field.name s.2.name s) (countersFields ρ) (log, r)
  have hfields : (countersFields ρ).foldl (fun s field => field.sanitize field.name s.2.name s) (log, r) =
      ((log.reportAll (counterReport r.name "cycles" r.cycles)).reportAll
        (counterReport r.name "instructions" r.instructions), r.cleared) := by
    unfold countersFields
    rw [foldl_cons, foldl_cons, Field.sanitize_eq, Field.sanitize_eq]
    rfl
  rw [hfields] at hcounters
  have hcoeffs := fun log => foldlM_range_getElem?
    (fun log (field : Field (PopMetrics ρ) Single) =>
      sanitizeCoefficient field.name (field.get r.cleared) r.cleared.name log)
    (coeffFields ρ) log
  unfold sanitizePopMetrics
  rw [hcounters, Option.bind_eq_bind, Option.bind_some]
  rw [hcoeffs, foldl_sanitizeCoefficient, PopMetrics.reports, Log.reportAll_append, Log.reportAll_append]
  exact congrArg some rfl

/-! ## The loops over the ranks -/

def calledName (rank : ℕ) : String := if rank = 0 then "cycles" else "instructions"

/-- The warning that is printed about a counter of a rank. -/
def Site.called (s : Site) : Warning := .counter s.region (calledName s.rank) s.value

/-- The warnings that are printed about some counters. -/
def calls (sites : List Site) : List Warning := (sites.filter fun s => Negative s.value).map Site.called

theorem calls_append (sites sites' : List Site) : calls (sites ++ sites') = calls sites ++ calls sites' := by
  unfold calls
  rw [filter_append, map_append]

theorem calls_sites (i : ℕ) (m : Monitor σ) : calls (m.sites i) =
    counterReport m.name (calledName i) m.cycles ++ counterReport m.name (calledName i) m.instructions := by
  unfold calls Monitor.sites counterReport
  rw [filter_cons, filter_cons, filter_nil]
  by_cases hc : Negative m.cycles <;> by_cases hi : Negative m.instructions <;>
    simp only [hc, hi, decide_true, decide_false, if_true, if_false, Bool.false_eq_true] <;> rfl

variable (ρ)

theorem countersFields_name {i : ℕ} (hi : i < 2) :
    ∃ field, (countersFields ρ)[i]? = some field ∧ field.name = calledName i := by
  obtain _ | _ | i := i
  · exact ⟨_, rfl, rfl⟩
  · exact ⟨_, rfl, rfl⟩
  · omega

theorem sanitizeMonitor_eq {i : ℕ} (hi : i < 2) (log : Log) (m : Monitor σ) :
    sanitizeMonitor ρ i log m = some (log.reportAll (calls (m.sites i)), m.cleared) := by
  obtain ⟨named, hnamed, hname⟩ := countersFields_name ρ hi
  have hloop := foldlM_range_getElem? (fun s (field : Field (Monitor σ) Double) => field.sanitize named.name s.2.name s)
    (monitorCountersFields σ) (log, m)
  have hfields : (monitorCountersFields σ).foldl (fun s field => field.sanitize named.name s.2.name s) (log, m) =
      ((log.reportAll (counterReport m.name (calledName i) m.cycles)).reportAll
        (counterReport m.name (calledName i) m.instructions), m.cleared) := by
    unfold monitorCountersFields
    rw [foldl_cons, foldl_cons, Field.sanitize_eq, Field.sanitize_eq, hname]
    rfl
  rw [hfields] at hloop
  unfold sanitizeMonitor
  rw [calls_sites, Log.reportAll_append, ← hloop]
  simp only [hnamed, Option.bind_eq_bind, Option.bind_some]

theorem sanitizeMonitor_eq_none {i : ℕ} (hi : 2 ≤ i) (log : Log) (m : Monitor σ) : sanitizeMonitor ρ i log m = none := by
  have hnone : (countersFields ρ)[i]? = none := getElem?_eq_none hi
  unfold sanitizeMonitor
  simp only [hnone, Option.bind_eq_bind, Option.bind_none]
  rfl

/-- The sites of the first `k` ranks. -/
def RegionRecord.sitesTo (region : RegionRecord σ) (k : ℕ) : List Site :=
  ((finRange region.numMpiRanks).take k).flatMap fun i => (region.processRecords i).sites i

theorem foldlM_sanitizeRank (log : Log) (region : RegionRecord σ) : ∀ k ≤ region.numMpiRanks, k ≤ 2 →
    (range k).foldlM (sanitizeRank ρ) (log, region.processRecords) =
      some (log.reportAll (calls (region.sitesTo k)),
        fun i => if i.val < k then (region.processRecords i).cleared else region.processRecords i) := by
  intro k
  induction k with
  | zero => exact fun _ _ => rfl
  | succ k ih =>
    intro hk hk2
    have hsites : region.sitesTo (k + 1) = region.sitesTo k ++ (region.processRecords ⟨k, hk⟩).sites k := by
      unfold RegionRecord.sitesTo
      rw [take_add_one, getElem?_eq_getElem (by rw [length_finRange]; exact hk), getElem_finRange,
        flatMap_append]
      exact congrArg _ (append_nil _)
    have hround : sanitizeRank ρ (log.reportAll (calls (region.sitesTo k)),
        fun i => if i.val < k then (region.processRecords i).cleared else region.processRecords i) k =
        some ((log.reportAll (calls (region.sitesTo k))).reportAll (calls ((region.processRecords ⟨k, hk⟩).sites k)),
          Function.update (fun i => if i.val < k then (region.processRecords i).cleared else region.processRecords i) ⟨k, hk⟩
            (region.processRecords ⟨k, hk⟩).cleared) := by
      have hlt : k < region.numMpiRanks := hk
      unfold sanitizeRank
      rw [dif_pos hlt]
      dsimp only
      rw [if_neg (Nat.lt_irrefl k), sanitizeMonitor_eq ρ hk2]
      rfl
    rw [range_succ, foldlM_append, ih (Nat.le_of_succ_le hk) (Nat.le_of_succ_le hk2), Option.bind_eq_bind,
      Option.bind_some, foldlM_cons, hround, hsites, calls_append, Log.reportAll_append]
    refine congrArg some (Prod.ext rfl (funext fun i => ?_))
    dsimp only
    obtain rfl | hne := eq_or_ne i ⟨k, hk⟩
    · rw [Function.update_self, if_pos (Nat.lt_succ_self k)]
    · have hik : i.val ≠ k := fun h => hne (Fin.ext h)
      rw [Function.update_of_ne hne]
      by_cases hlt : i.val < k
      · rw [if_pos hlt, if_pos (Nat.lt_succ_of_lt hlt)]
      · rw [if_neg hlt, if_neg (by omega)]

variable {ρ}

theorem sanitizeRegion_eq_none {region : RegionRecord σ} (h : 2 < region.numMpiRanks) (log : Log) :
    sanitizeRegion ρ log region = none := by
  obtain ⟨n, hn⟩ := Nat.exists_eq_add_of_lt h
  have hrange : range region.numMpiRanks = range 2 ++ 2 :: (range n).map (3 + ·) := by
    rw [hn, Nat.add_right_comm, range_add]
    rfl
  have hround : ∀ s, sanitizeRank (σ := σ) (n := region.numMpiRanks) ρ s 2 = none := fun s => by
    unfold sanitizeRank
    rw [dif_pos h, sanitizeMonitor_eq_none ρ (Nat.le_refl 2)]
    rfl
  have hloop : (range region.numMpiRanks).foldlM (sanitizeRank ρ) (log, region.processRecords) = none := by
    rw [hrange, foldlM_append, foldlM_sanitizeRank ρ log region 2 (Nat.le_of_lt h) (Nat.le_refl 2), Option.bind_eq_bind,
      Option.bind_some, foldlM_cons, hround]
    rfl
  unfold sanitizeRegion
  rw [hloop]
  rfl

theorem sanitizeRegion_eq {region : RegionRecord σ} (h : region.numMpiRanks ≤ 2) (log : Log) :
    sanitizeRegion ρ log region =
      some (log.reportAll (calls region.sites),
        { region with processRecords := fun i => (region.processRecords i).cleared }) := by
  have hsites : region.sitesTo region.numMpiRanks = region.sites := by
    unfold RegionRecord.sitesTo RegionRecord.sites
    rw [take_of_length_le (by rw [length_finRange])]
  unfold sanitizeRegion
  rw [foldlM_sanitizeRank ρ log region _ (Nat.le_refl _) h, hsites]
  simp only [Fin.is_lt, if_true]
  rfl

/-! ## All records -/

theorem eachRecord_eq {α : Type} {f : Log → α → Option (Log × α)} {reports : α → List Warning} {g : α → α} {l : List α}
    (h : ∀ a ∈ l, ∀ log, f log a = some (log.reportAll (reports a), g a)) : ∀ log,
    eachRecord f log l = some (log.reportAll (l.flatMap reports), l.map g) := by
  induction l with
  | nil => exact fun _ => rfl
  | cons a l ih =>
    intro log
    rw [forall_mem_cons] at h
    rw [eachRecord, h.1, Option.bind_eq_bind, Option.bind_some]
    dsimp only
    rw [ih h.2, flatMap_cons, Log.reportAll_append]
    rfl

theorem eachRecord_eq_none {α : Type} {f : Log → α → Option (Log × α)} {a : α} (h : ∀ log, f log a = none) {l : List α}
    (ha : a ∈ l) : ∀ log, eachRecord f log l = none := by
  induction l with
  | nil => exact absurd ha not_mem_nil
  | cons b l ih =>
    intro log
    rw [eachRecord]
    obtain rfl | ha := mem_cons.mp ha
    · rw [h]
      rfl
    · cases hb : f log b with
      | none => rfl
      | some s =>
        rw [Option.bind_eq_bind, Option.bind_some]
        dsimp only
        rw [ih ha]
        rfl

theorem calls_flatMap (regions : List (RegionRecord σ)) :
    calls (regions.flatMap RegionRecord.sites) = regions.flatMap fun region => calls region.sites := by
  induction regions with
  | nil => rfl
  | cons region regions ih => rw [flatMap_cons, calls_append, ih, flatMap_cons]

def RegionRecord.cleared (region : RegionRecord σ) : RegionRecord σ :=
  { region with processRecords := fun i => (region.processRecords i).cleared }

theorem sanitizeRecords_eq (log : Log) (popMetrics : List (PopMetrics ρ)) {regions : List (RegionRecord σ)}
    (h : ∀ region ∈ regions, region.numMpiRanks ≤ 2) :
    sanitizeRecords ρ log popMetrics regions =
      some (log.reportAll (popMetrics.flatMap PopMetrics.reports ++ calls (regions.flatMap RegionRecord.sites)),
        popMetrics.map PopMetrics.cleared, regions.map RegionRecord.cleared) := by
  unfold sanitizeRecords
  rw [eachRecord_eq fun r _ log => sanitizePopMetrics_eq log r, Option.bind_eq_bind, Option.bind_some]
  dsimp only
  rw [eachRecord_eq fun region hregion log => sanitizeRegion_eq (h region hregion) log, calls_flatMap, Log.reportAll_append]
  rfl

theorem sanitizeRecords_eq_none (log : Log) (popMetrics : List (PopMetrics ρ)) {regions : List (RegionRecord σ)}
    {region : RegionRecord σ} (hregion : region ∈ regions) (h : 2 < region.numMpiRanks) :
    sanitizeRecords ρ log popMetrics regions = none := by
  unfold sanitizeRecords
  rw [eachRecord_eq fun r _ log => sanitizePopMetrics_eq log r, Option.bind_eq_bind, Option.bind_some]
  dsimp only
  rw [eachRecord_eq_none (sanitizeRegion_eq_none h) hregion]
  rfl

/-! ## The counters -/

/-- The word has the same sign as an `int64_t` and as a `double`. -/
def SameSign (w : BitVec 64) : Prop := 0 ≤ w.toInt ∨ (-2 ^ 63 < w.toInt ∧ w.toInt ≤ -2 ^ 52)

theorem negative_iff (w : BitVec 64) : Negative w ↔ -2 ^ 63 < w.toInt ∧ w.toInt ≤ -2 ^ 52 := by
  unfold Negative
  rw [Ieee.lt_zero_iff, BitVec.msb_eq_decide, decide_eq_true_iff, BitVec.toInt_eq_toNat_cond, Ieee.magnitude, Ieee.infinity]
  norm_num
  split <;> omega

theorem not_negative_cleared (w : Double) : ¬Negative (Sanitize.cleared w) := by
  unfold Sanitize.cleared
  split
  · exact Ieee.not_zero_lt_zero 52
  · next h => exact h

theorem doubleCleared_cleared (w : Double) : DoubleCleared w (Sanitize.cleared w) :=
  ⟨not_negative_cleared w, fun h => if_neg h⟩

theorem intCleared_iff (w : BitVec 64) : IntCleared w (Sanitize.cleared w) ↔ SameSign w := by
  unfold IntCleared SameSign Sanitize.cleared
  split
  · next h =>
    rw [negative_iff] at h
    exact ⟨fun _ => .inr h, fun _ => ⟨by decide, fun h0 => by omega⟩⟩
  · next h =>
    rw [negative_iff] at h
    exact ⟨fun hc => .inl hc.1, fun hs => ⟨hs.resolve_right h, fun _ => rfl⟩⟩

theorem Monitor.cleared_iff (m : Monitor σ) : m.Cleared m.cleared ↔ SameSign m.cycles ∧ SameSign m.instructions := by
  rw [← intCleared_iff, ← intCleared_iff]
  exact ⟨fun h => h.2, fun h => ⟨rfl, h⟩⟩

theorem RegionRecord.cleared_iff (region : RegionRecord σ) : region.Cleared region.cleared ↔
    ∀ i, SameSign (region.processRecords i).cycles ∧ SameSign (region.processRecords i).instructions := by
  simp only [← Monitor.cleared_iff]
  constructor
  · rintro ⟨records, heq, hrecords⟩ i
    rw [RegionRecord.cleared, RegionRecord.mk.injEq] at heq
    rw [← eq_of_heq heq.2.2] at hrecords
    exact hrecords i
  · exact fun h => ⟨_, rfl, h⟩

theorem PopMetrics.cleared_right (r : PopMetrics ρ) : r.Cleared r.cleared :=
  ⟨rfl, doubleCleared_cleared _, doubleCleared_cleared _⟩

/-! ## The names in the warnings -/

theorem mem_sites {s : Site} {region : RegionRecord σ} (hs : s ∈ region.sites) : ∃ i,
    s ∈ (region.processRecords i).sites i ∧ s.rank < region.numMpiRanks ∧ s.index < 2 ∧ s.field = calledName s.index := by
  obtain ⟨i, -, hi⟩ := mem_flatMap.mp hs
  refine ⟨i, hi, ?_⟩
  obtain rfl | hi := mem_cons.mp hi
  · exact ⟨i.isLt, Nat.zero_lt_two, rfl⟩
  · obtain rfl := mem_singleton.mp hi
    exact ⟨i.isLt, Nat.one_lt_two, rfl⟩

theorem called_eq_report_iff {s : Site} {region : RegionRecord σ} (h : region.numMpiRanks ≤ 2) (hs : s ∈ region.sites) :
    s.called = s.report ↔ s.rank = s.index := by
  obtain ⟨i, -, hrank, hindex, hfield⟩ := mem_sites hs
  unfold Site.called Site.report
  rw [hfield, Warning.counter.injEq]
  constructor
  · rintro ⟨-, hname, -⟩
    unfold calledName at hname
    split at hname <;> split at hname
    · omega
    · exact absurd hname (by decide)
    · exact absurd hname (by decide)
    · omega
  · intro heq
    rw [heq]
    exact ⟨rfl, rfl, rfl⟩

theorem calls_eq {regions : List (RegionRecord σ)} (h : ∀ region ∈ regions, ∀ i,
    SameSign (region.processRecords i).cycles ∧ SameSign (region.processRecords i).instructions) :
    calls (regions.flatMap RegionRecord.sites) = (negativeSites regions).map Site.called := by
  refine congrArg _ (filter_congr fun s hs => ?_)
  obtain ⟨region, hregion, hs⟩ := mem_flatMap.mp hs
  obtain ⟨i, hi, -⟩ := mem_sites hs
  have hsign : SameSign s.value := by
    obtain rfl | hi := mem_cons.mp hi
    · exact (h region hregion i).1
    · obtain rfl := mem_singleton.mp hi
      exact (h region hregion i).2
  rw [decide_eq_decide, negative_iff]
  obtain h0 | hneg := hsign <;> omega

/-- The records and the warnings are right exactly if no region has a third rank, each counter of a monitor has one sign, and
those of the negative ones that are still reported are the cycles of a first or the instructions of a second rank. -/
theorem sanitized_right_iff (log : Log) (popMetrics : List (PopMetrics ρ)) (regions : List (RegionRecord σ)) :
    SanitizedRight log popMetrics regions ↔
      (∀ region ∈ regions, region.numMpiRanks ≤ 2) ∧
      (∀ region ∈ regions, ∀ i,
        SameSign (region.processRecords i).cycles ∧ SameSign (region.processRecords i).instructions) ∧
      ∀ s ∈ (negativeSites regions).take
          (maxDetailedWarnings - log.warnCount - (popMetrics.flatMap PopMetrics.reports).length), s.rank = s.index := by
  have hnames (hranks : ∀ region ∈ regions, region.numMpiRanks ≤ 2) (hsigns : ∀ region ∈ regions, ∀ i,
      SameSign (region.processRecords i).cycles ∧ SameSign (region.processRecords i).instructions) :
      limited log.warnCount (popMetrics.flatMap PopMetrics.reports ++ calls (regions.flatMap RegionRecord.sites)) =
        limited log.warnCount (popMetrics.flatMap PopMetrics.reports ++ (negativeSites regions).map Site.report) ↔
      ∀ s ∈ (negativeSites regions).take
        (maxDetailedWarnings - log.warnCount - (popMetrics.flatMap PopMetrics.reports).length), s.rank = s.index := by
    rw [calls_eq hsigns, limited_append_inj (by rw [length_map, length_map]), ← map_take, ← map_take,
      map_inj_left]
    refine forall₂_congr fun s hs => ?_
    obtain ⟨region, hregion, hs⟩ := mem_flatMap.mp (mem_filter.mp (mem_of_mem_take hs)).1
    exact called_eq_report_iff (hranks region hregion) hs
  constructor
  · rintro ⟨log', popMetrics', regions', heq, -, hregions, hissued⟩
    have hranks : ∀ region ∈ regions, region.numMpiRanks ≤ 2 := fun region hregion => by
      by_contra h
      rw [sanitizeRecords_eq_none log popMetrics hregion (Nat.lt_of_not_le h)] at heq
      cases heq
    rw [sanitizeRecords_eq log popMetrics hranks] at heq
    obtain ⟨rfl, rfl, rfl⟩ := heq
    rw [forall₂_map_right_iff, forall₂_same] at hregions
    have hsigns := fun region hregion => (RegionRecord.cleared_iff region).mp (hregions region hregion)
    rw [Log.reportAll_eq, append_right_inj] at hissued
    exact ⟨hranks, hsigns, (hnames hranks hsigns).mp hissued⟩
  · rintro ⟨hranks, hsigns, hsites⟩
    refine ⟨_, _, _, sanitizeRecords_eq log popMetrics hranks, ?_, ?_, ?_⟩
    · rw [forall₂_map_right_iff, forall₂_same]
      exact fun r _ => r.cleared_right
    · rw [forall₂_map_right_iff, forall₂_same]
      exact fun region hregion => (RegionRecord.cleared_iff region).mpr (hsigns region hregion)
    · rw [Log.reportAll_eq, (hnames hranks hsigns).mpr hsites]

end Records

/-- A region of `n` ranks. -/
def ranks (n : ℕ) (records : Fin n → Monitor Unit) : RegionRecord Unit := ⟨"Global".toList, n, records⟩

/-- Three ranks without counters. -/
theorem third_rank : ¬SanitizedRight {} ([] : List (PopMetrics Unit))
    [ranks 3 fun _ => { name := "Global".toList, rest := () }] := by
  rintro ⟨log', popMetrics', regions', heq, -⟩
  cases heq

/-- A counter of -1 is a NaN. -/
example : Sanitize.cleared (BitVec.ofInt 64 (-1)) = BitVec.ofInt 64 (-1) := by decide

end Dlb.Talp.Sanitize

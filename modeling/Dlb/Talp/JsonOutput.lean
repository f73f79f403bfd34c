import Dlb.Lib.JsonText
import Dlb.Lib.Words
import Dlb.Support.QuotedMask
import Dlb.Talp.NodeSummary
import Dlb.Talp.Types

/-!
# The JSON output

At the end `talp_output.c` writes what has been recorded into a file, one member or item a line. The names of the regions
and the hostnames are printed as they are, and the mask of a process is what `mu_get_quoted_mask` has made of it in a buffer
of 128 characters.

A decoder that is given the text (`talpOutputFinalize`) returns the records (`TalpOutput.json`) exactly if no name has a
character that JSON would escape, and all masks fit (`json_decodes_iff`).
-/

namespace Dlb.Talp

open List Lib

/-! ## The records -/

/-- A finite floating-point number, as `%.{prec}f` prints it. -/
structure Decimal (prec : ℕ) where
  negative : Bool := false
  whole : ℕ := 0
  fraction : Fin prec → Fin 10 := fun _ => 0

def Decimal.digits {prec : ℕ} (d : Decimal prec) : List Char := ofFn fun i => Nat.digitChar (d.fraction i)

/-- A number with its format: `%d`, `%u` and `PRId64`, or `%.{prec}f`. -/
inductive Number where
  | int (x : ℤ)
  | decimal {prec : ℕ} (d : Decimal prec)

/-- `dlb_pop_metrics_t` -/
structure PopMetrics where
  name : List Char
  numCpus : ℤ := 0
  numOmpThreads : ℤ := 0
  numMpiRanks : ℤ := 0
  numNodes : ℤ := 0
  avgCpus : Decimal 1 := {}
  numGpus : ℤ := 0
  cycles : Decimal 0 := {}
  instructions : Decimal 0 := {}
  numMeasurements : ℤ := 0
  numMpiCalls : ℤ := 0
  numOmpParallels : ℤ := 0
  numOmpTasks : ℤ := 0
  numGpuRuntimeCalls : ℤ := 0
  elapsedTime : ℤ := 0
  usefulTime : ℤ := 0
  mpiTime : ℤ := 0
  mpiWorkerIdleTime : ℤ := 0
  ompLoadImbalanceTime : ℤ := 0
  ompSchedulingTime : ℤ := 0
  ompSerializationTime : ℤ := 0
  gpuRuntimeTime : ℤ := 0
  minMpiNormdProc : Decimal 0 := {}
  minMpiNormdNode : Decimal 0 := {}
  gpuUsefulTime : ℤ := 0
  gpuCommunicationTime : ℤ := 0
  gpuInactiveTime : ℤ := 0
  maxGpuUsefulTime : ℤ := 0
  maxGpuActiveTime : ℤ := 0
  parallelEfficiency : Decimal 2 := {}
  mpiParallelEfficiency : Decimal 2 := {}
  mpiCommunicationEfficiency : Decimal 2 := {}
  mpiLoadBalance : Decimal 2 := {}
  mpiLoadBalanceIn : Decimal 2 := {}
  mpiLoadBalanceOut : Decimal 2 := {}
  ompParallelEfficiency : Decimal 2 := {}
  ompLoadBalance : Decimal 2 := {}
  ompSchedulingEfficiency : Decimal 2 := {}
  ompSerializationEfficiency : Decimal 2 := {}
  deviceOffloadEfficiency : Decimal 2 := {}
  gpuParallelEfficiency : Decimal 2 := {}
  gpuLoadBalance : Decimal 2 := {}
  gpuCommunicationEfficiency : Decimal 2 := {}
  gpuOrchestrationEfficiency : Decimal 2 := {}

/-- `FOR_DLB_POP_METRICS_FIELDS` -/
def PopMetrics.fields (m : PopMetrics) : List (String × Number) :=
  [("numCpus", .int m.numCpus), ("numOmpThreads", .int m.numOmpThreads), ("numMpiRanks", .int m.numMpiRanks),
   ("numNodes", .int m.numNodes), ("avgCpus", .decimal m.avgCpus), ("numGpus", .int m.numGpus),
   ("cycles", .decimal m.cycles), ("instructions", .decimal m.instructions),
   ("numMeasurements", .int m.numMeasurements), ("numMpiCalls", .int m.numMpiCalls),
   ("numOmpParallels", .int m.numOmpParallels), ("numOmpTasks", .int m.numOmpTasks),
   ("numGpuRuntimeCalls", .int m.numGpuRuntimeCalls), ("elapsedTime", .int m.elapsedTime),
   ("usefulTime", .int m.usefulTime), ("mpiTime", .int m.mpiTime), ("mpiWorkerIdleTime", .int m.mpiWorkerIdleTime),
   ("ompLoadImbalanceTime", .int m.ompLoadImbalanceTime), ("ompSchedulingTime", .int m.ompSchedulingTime),
   ("ompSerializationTime", .int m.ompSerializationTime), ("gpuRuntimeTime", .int m.gpuRuntimeTime),
   ("minMpiNormdProc", .decimal m.minMpiNormdProc), ("minMpiNormdNode", .decimal m.minMpiNormdNode),
   ("gpuUsefulTime", .int m.gpuUsefulTime), ("gpuCommunicationTime", .int m.gpuCommunicationTime),
   ("gpuInactiveTime", .int m.gpuInactiveTime), ("maxGpuUsefulTime", .int m.maxGpuUsefulTime),
   ("maxGpuActiveTime", .int m.maxGpuActiveTime), ("parallelEfficiency", .decimal m.parallelEfficiency),
   ("mpiParallelEfficiency", .decimal m.mpiParallelEfficiency),
   ("mpiCommunicationEfficiency", .decimal m.mpiCommunicationEfficiency),
   ("mpiLoadBalance", .decimal m.mpiLoadBalance), ("mpiLoadBalanceIn", .decimal m.mpiLoadBalanceIn),
   ("mpiLoadBalanceOut", .decimal m.mpiLoadBalanceOut), ("ompParallelEfficiency", .decimal m.ompParallelEfficiency),
   ("ompLoadBalance", .decimal m.ompLoadBalance), ("ompSchedulingEfficiency", .decimal m.ompSchedulingEfficiency),
   ("ompSerializationEfficiency", .decimal m.ompSerializationEfficiency),
   ("deviceOffloadEfficiency", .decimal m.deviceOffloadEfficiency),
   ("gpuParallelEfficiency", .decimal m.gpuParallelEfficiency), ("gpuLoadBalance", .decimal m.gpuLoadBalance),
   ("gpuCommunicationEfficiency", .decimal m.gpuCommunicationEfficiency),
   ("gpuOrchestrationEfficiency", .decimal m.gpuOrchestrationEfficiency)]

/-- `FOR_DLB_MONITOR_PRINTABLE_FIELDS` -/
def Monitor.fields (m : Monitor) : List (String × Number) :=
  [("numCpus", .int m.numCpus), ("numOmpThreads", .int m.numOmpThreads), ("numGpus", .int m.numGpus),
   ("cycles", .int m.counters.cycles), ("instructions", .int m.counters.instructions),
   ("numMeasurements", .int m.numMeasurements), ("numResets", .int m.numResets),
   ("numMpiCalls", .int m.stats.numMpiCalls), ("numOmpParallels", .int m.stats.numOmpParallels),
   ("numOmpTasks", .int m.stats.numOmpTasks), ("numGpuRuntimeCalls", .int m.stats.numGpuRuntimeCalls),
   ("elapsedTime", .int m.elapsedTime), ("usefulTime", .int m.usefulTime), ("mpiTime", .int m.mpiTime),
   ("mpiWorkerIdleTime", .int m.mpiWorkerIdleTime), ("ompLoadImbalanceTime", .int m.ompLoadImbalanceTime),
   ("ompSchedulingTime", .int m.ompSchedulingTime), ("ompSerializationTime", .int m.ompSerializationTime),
   ("gpuRuntimeTime", .int m.gpuRuntimeTime), ("gpuUsefulTime", .int m.gpuUsefulTime),
   ("gpuCommunicationTime", .int m.gpuCommunicationTime)]

/-- `process_record_t`. The text of the mask has been made from that of the monitor. -/
structure ProcessRecord where
  rank : ℤ
  pid : Pid
  nodeId : ℤ
  hostname : List Char
  monitor : Monitor

/-- `region_record_t` -/
structure RegionRecord where
  name : List Char
  processRecords : List ProcessRecord

/-- `talp_common_record_t`: the version of DLB and the time in ISO 8601, neither of which needs an escape. -/
structure TalpCommonRecord where
  dlbVersion : List Char
  timeOfCreation : List Char
  plainVersion : Json.Plain dlbVersion
  plainTime : Json.Plain timeOfCreation

/-- `talp_resources_record_t` -/
structure TalpResourcesRecord where
  numCpus : ℕ := 0
  numAvailableCpus : ℕ := 0
  numNodes : ℕ := 0
  numMpiRanks : ℕ := 0
  numGpus : ℕ := 0

/-- `talp_process_info_record_t` -/
structure TalpProcessInfoRecord where
  hostname : List Char := []
  pid : Pid := 0

/-- The static variables of `talp_output.c`. A new record is prepended to its list. -/
structure TalpOutput where
  commonRecord : TalpCommonRecord
  resourcesRecord : TalpResourcesRecord := {}
  processInfoRecord : TalpProcessInfoRecord := {}
  popMetricsRecords : List PopMetrics := []
  nodeRecords : List NodeRecord := []
  regionRecords : List RegionRecord := []

/-- `TALP_OUTPUT_CPUSET_MAX` -/
def talpOutputCpusetMax : ℕ := 128

/-! ## The printers -/

def Number.text : Number → List Char
  | .int x => Json.numeral (x < 0) x.natAbs []
  | .decimal d => Json.numeral d.negative d.whole d.digits

def fieldLines (indent : ℕ) (fields : List (String × Number)) : List (List Char) :=
  fields.map fun f => Json.member indent f.1.toList f.2.text

def jsonHeader : List Char := "\x7b\n".toList

def jsonFooter : List Char := "\n\x7d\n".toList

/-- The end of a line that is followed by another one. -/
def nextLine : List Char := ",\n".toList

def commonToJson (r : TalpCommonRecord) : List Char :=
  Json.member 2 "dlbVersion".toList (Json.quoted r.dlbVersion) ++ nextLine ++
    (Json.member 2 "timestamp".toList (Json.quoted r.timeOfCreation) ++ nextLine)

def TalpResourcesRecord.fields (r : TalpResourcesRecord) : List (String × Number) :=
  [("numCpus", .int r.numCpus), ("numAvailableCpus", .int r.numAvailableCpus), ("numNodes", .int r.numNodes),
   ("numMpiRanks", .int r.numMpiRanks), ("numGpus", .int r.numGpus)]

def resourcesToJson (r : TalpResourcesRecord) : List Char :=
  Json.member 2 "resources".toList (Json.object 2 (fieldLines 4 r.fields)) ++ nextLine

def TalpProcessInfoRecord.text (r : TalpProcessInfoRecord) : List Char :=
  Json.member 2 "processInfo".toList
    (Json.object 2 (Json.member 4 "hostname".toList (Json.quoted r.hostname) :: fieldLines 4 [("pid", .int r.pid)]))

def processInfoToJson (r : TalpProcessInfoRecord) : List Char := if r.pid ≠ 0 then r.text ++ nextLine else []

def PopMetrics.text (m : PopMetrics) : List Char := Json.member 4 m.name (Json.object 4 (fieldLines 6 m.fields))

def popMetricsText (records : List PopMetrics) : List Char :=
  Json.member 2 "Application".toList (Json.object 2 (records.map PopMetrics.text))

def popMetricsToJson (records : List PopMetrics) : List Char := if records ≠ [] then popMetricsText records else []

def ProcessInNodeRecord.fields (p : ProcessInNodeRecord) : List (String × Number) :=
  [("id", .int p.pid), ("usefulTime", .int p.usefulTime), ("mpiTime", .int p.mpiTime)]

def ProcessInNodeRecord.text (p : ProcessInNodeRecord) : List Char := Json.item 8 (Json.object 8 (fieldLines 10 p.fields))

def timeFields (usefulTime mpiTime : ℤ) : List (String × Number) :=
  [("usefulTime", .int usefulTime), ("mpiTime", .int mpiTime)]

def NodeRecord.text (r : NodeRecord) : List Char :=
  Json.item 4 (Json.object 4
    [Json.member 6 "id".toList (Json.quoted (Number.int r.nodeId).text),
     Json.member 6 "process".toList (Json.array 6 (r.processes.map ProcessInNodeRecord.text)),
     Json.member 6 "nodeAvg".toList (Json.object 6 (fieldLines 8 (timeFields r.avgUsefulTime r.avgMpiTime))),
     Json.member 6 "nodeMax".toList (Json.object 6 (fieldLines 8 (timeFields r.maxUsefulTime r.maxMpiTime)))])

def nodeText (records : List NodeRecord) : List Char :=
  Json.member 2 "node".toList (Json.array 2 (records.map NodeRecord.text))

def nodeToJson (popMetrics : List PopMetrics) (records : List NodeRecord) : List Char :=
  if records = [] then [] else (if popMetrics ≠ [] then nextLine else []) ++ nodeText records

section Process

variable (S : System)

/-- `cpuset_quoted` -/
def ProcessRecord.cpusetQuoted (r : ProcessRecord) : List Char :=
  muGetQuotedMask S r.monitor.data.cpuMask talpOutputCpusetMax []

def ProcessRecord.text (r : ProcessRecord) : List Char :=
  Json.item 6 (Json.object 6
    (fieldLines 8 [("rank", .int r.rank), ("pid", .int r.pid), ("nodeId", .int r.nodeId)] ++
      (Json.member 8 "hostname".toList (Json.quoted r.hostname) ::
        Json.member 8 "cpuset".toList (r.cpusetQuoted S) :: fieldLines 8 r.monitor.fields)))

def RegionRecord.text (r : RegionRecord) : List Char :=
  Json.member 4 r.name (Json.array 4 (r.processRecords.map (ProcessRecord.text S)))

def processText (records : List RegionRecord) : List Char :=
  Json.member 2 "Process".toList (Json.object 2 (records.map (RegionRecord.text S)))

def processToJson (popMetrics : List PopMetrics) (nodes : List NodeRecord) (records : List RegionRecord) : List Char :=
  if records = [] then []
  else (if popMetrics ≠ [] ∨ nodes ≠ [] then nextLine else []) ++ processText S records

/-- `talp_output_finalize` with a JSON file. The lists are reversed, so that the records come in the order in which they
were made. -/
def talpOutputFinalize (o : TalpOutput) : List Char :=
  let popMetrics := o.popMetricsRecords.reverse
  let nodes := o.nodeRecords.reverse
  let regions := o.regionRecords.reverse
  jsonHeader ++ commonToJson o.commonRecord ++ resourcesToJson o.resourcesRecord ++
    processInfoToJson o.processInfoRecord ++ popMetricsToJson popMetrics ++ nodeToJson popMetrics nodes ++
    processToJson S popMetrics nodes regions ++ jsonFooter

end Process

/-! ## What the text stands for -/

def Number.json : Number → Json
  | .int x => .num x 0
  | @Number.decimal prec d => .num (Json.scaled d.negative d.whole d.digits) (-(prec : ℤ))

def fieldMembers (fields : List (String × Number)) : List (List Char × Json) :=
  fields.map fun f => (f.1.toList, f.2.json)

def PopMetrics.json (m : PopMetrics) : Json := .obj (fieldMembers m.fields)

def ProcessInNodeRecord.json (p : ProcessInNodeRecord) : Json := .obj (fieldMembers p.fields)

def NodeRecord.json (r : NodeRecord) : Json :=
  .obj [("id".toList, .str (Number.int r.nodeId).text), ("process".toList, .arr (r.processes.map ProcessInNodeRecord.json)),
    ("nodeAvg".toList, .obj (fieldMembers (timeFields r.avgUsefulTime r.avgMpiTime))),
    ("nodeMax".toList, .obj (fieldMembers (timeFields r.maxUsefulTime r.maxMpiTime)))]

section Json

variable (S : System)

def ProcessRecord.json (r : ProcessRecord) : Json :=
  .obj (fieldMembers [("rank", .int r.rank), ("pid", .int r.pid), ("nodeId", .int r.nodeId)] ++
    (("hostname".toList, .str r.hostname) :: ("cpuset".toList, .str (maskText S r.monitor.data.cpuMask)) ::
      fieldMembers r.monitor.fields))

def RegionRecord.json (r : RegionRecord) : Json := .arr (r.processRecords.map (ProcessRecord.json S))

/-- The sections, in the order of the file. A section without records is left out. -/
def TalpOutput.members (o : TalpOutput) : List (List Char × Json) :=
  [("dlbVersion".toList, .str o.commonRecord.dlbVersion), ("timestamp".toList, .str o.commonRecord.timeOfCreation),
    ("resources".toList, .obj (fieldMembers o.resourcesRecord.fields))] ++
  (if o.processInfoRecord.pid ≠ 0 then
    [("processInfo".toList, .obj (("hostname".toList, .str o.processInfoRecord.hostname) ::
      fieldMembers [("pid", .int o.processInfoRecord.pid)]))] else []) ++
  ((if o.popMetricsRecords ≠ [] then
    [("Application".toList, .obj (o.popMetricsRecords.reverse.map fun m => (m.name, m.json)))] else []) ++
  (if o.nodeRecords ≠ [] then [("node".toList, .arr (o.nodeRecords.reverse.map NodeRecord.json))] else []) ++
  (if o.regionRecords ≠ [] then
    [("Process".toList, .obj (o.regionRecords.reverse.map fun r => (r.name, r.json S)))] else []))

/-- The records as a value: all regions, names, masks and numbers in the order of recording. -/
def TalpOutput.json (o : TalpOutput) : Json := .obj (o.members S)

/-! ## When the text says so -/

/-- The hostname needs no escape, and the buffer holds the text of the mask with its quotes. -/
def ProcessRecord.Printable (r : ProcessRecord) : Prop :=
  Json.Plain r.hostname ∧ (maskText S r.monitor.data.cpuMask).length + 2 < talpOutputCpusetMax

def RegionRecord.Printable (r : RegionRecord) : Prop :=
  Json.Plain r.name ∧ ∀ p ∈ r.processRecords, p.Printable S

structure TalpOutput.Printable (o : TalpOutput) : Prop where
  processInfo : o.processInfoRecord.pid ≠ 0 → Json.Plain o.processInfoRecord.hostname
  popMetrics : ∀ m ∈ o.popMetricsRecords, Json.Plain m.name
  regions : ∀ r ∈ o.regionRecords, r.Printable S

end Json

variable {S : System} {fields : List (String × Number)} {o : TalpOutput}

/-! ### Fields -/

theorem Decimal.isDigit_digits {prec : ℕ} (d : Decimal prec) : ∀ c ∈ d.digits, c.isDigit := fun c hc => by
  obtain ⟨i, rfl⟩ := mem_ofFn.mp hc
  rw [Nat.isDigit_digitChar]
  exact decide_eq_true (d.fraction i).isLt

theorem Number.spells (x : Number) : Json.Spells True x.text (Json.tokens x.json) := by
  cases x with
  | int x =>
    have hscaled : Json.scaled (x < 0) x.natAbs [] = x := by
      rw [Json.scaled, Nat.ofDigitChars_nil]
      split
      · rename_i h
        have := of_decide_eq_true h
        omega
      · rename_i h
        have := mt decide_eq_true h
        omega
    have h := Json.Spells.numeral (x < 0) x.natAbs (nofun : ∀ d ∈ ([] : List Char), d.isDigit)
    rw [hscaled] at h
    exact h
  | decimal d =>
    have h := Json.Spells.numeral d.negative d.whole d.isDigit_digits
    rw [Decimal.digits, length_ofFn] at h
    exact h

theorem Number.plain_int (x : ℤ) : Json.Plain (Number.int x).text := Json.plain_numeral _ _ nofun

theorem fieldLines_spell (indent : ℕ) (hplain : ∀ f ∈ fields, Json.Plain f.1.toList) :
    Json.Lines True (fieldLines indent fields) (Json.memberTokens (fieldMembers fields)) :=
  (Json.Lines.members fun f hf => (Number.spells f.2).member indent (hplain f hf)).congr (by simp)

theorem plain_fields (fields' : List (String × Number)) (hnames : fields.map Prod.fst = fields'.map Prod.fst)
    (hplain : ∀ k ∈ fields'.map Prod.fst, Json.Plain k.toList) : ∀ f ∈ fields, Json.Plain f.1.toList := fun _ hf =>
  hplain _ (hnames ▸ mem_map_of_mem hf)

theorem PopMetrics.plain_fields (m : PopMetrics) : ∀ f ∈ m.fields, Json.Plain f.1.toList :=
  Talp.plain_fields (PopMetrics.fields { name := [] }) rfl <| by
    simp only [PopMetrics.fields, map_cons, map_nil, forall_mem_cons, Lib.toList_literal]
    decide

theorem Monitor.plain_fields (m : Monitor) : ∀ f ∈ m.fields, Json.Plain f.1.toList :=
  Talp.plain_fields (Monitor.fields {}) rfl <| by
    simp only [Monitor.fields, map_cons, map_nil, forall_mem_cons, Lib.toList_literal]
    decide

theorem TalpResourcesRecord.plain_fields (r : TalpResourcesRecord) : ∀ f ∈ r.fields, Json.Plain f.1.toList :=
  Talp.plain_fields (TalpResourcesRecord.fields {}) rfl (by decide)

theorem ProcessInNodeRecord.plain_fields (p : ProcessInNodeRecord) : ∀ f ∈ p.fields, Json.Plain f.1.toList :=
  Talp.plain_fields (ProcessInNodeRecord.fields ⟨0, 0, 0⟩) rfl (by decide)

theorem plain_timeFields (usefulTime mpiTime : ℤ) : ∀ f ∈ timeFields usefulTime mpiTime, Json.Plain f.1.toList :=
  plain_fields (timeFields 0 0) rfl (by decide)

/-! ### Records -/

theorem fieldObject_reads (indent k : ℕ) (hplain : ∀ f ∈ fields, Json.Plain f.1.toList) :
    Json.Reads True (Json.object indent (fieldLines k fields)) (Json.tokens (.obj (fieldMembers fields))) :=
  Json.Reads.object indent (fieldLines_spell k hplain)

theorem PopMetrics.spells (m : PopMetrics) :
    Json.Spells (Json.Plain m.name) m.text (.str m.name :: .colon :: Json.tokens m.json) :=
  ((Json.Spells.of_reads (fieldObject_reads 4 6 m.plain_fields)).named 4 m.name (Json.endsLine_object _ _)).congr
    (and_iff_left trivial)

theorem ProcessInNodeRecord.spells (p : ProcessInNodeRecord) : Json.Spells True p.text (Json.tokens p.json) :=
  (Json.Spells.of_reads (fieldObject_reads 8 10 p.plain_fields)).item 8

theorem NodeRecord.spells (r : NodeRecord) : Json.Spells True r.text (Json.tokens r.json) := by
  have hid : Json.Spells True (Json.quoted (Number.int r.nodeId).text) (Json.tokens (.str (Number.int r.nodeId).text)) :=
    Json.Spells.of_reads (Json.Reads.plain (Number.plain_int _))
  have hprocesses : Json.Lines (∀ p ∈ r.processes, True) (r.processes.map ProcessInNodeRecord.text)
      (Json.itemTokens (r.processes.map ProcessInNodeRecord.json)) := Json.Lines.items fun p _ => p.spells
  have htimes : ∀ a b, Json.Spells True (Json.object 6 (fieldLines 8 (timeFields a b)))
      (Json.tokens (.obj (fieldMembers (timeFields a b)))) := fun a b =>
    Json.Spells.of_reads (fieldObject_reads 6 8 (plain_timeFields a b))
  have hmembers := Json.Lines.cons (hid.member 6 (k := "id".toList) (by decide)) <|
    Json.Lines.cons ((Json.Spells.of_reads (Json.Reads.array 6 hprocesses)).member 6 (k := "process".toList) (by decide)) <|
    Json.Lines.cons ((htimes r.avgUsefulTime r.avgMpiTime).member 6 (k := "nodeAvg".toList) (by decide)) <|
    Json.Lines.cons ((htimes r.maxUsefulTime r.maxMpiTime).member 6 (k := "nodeMax".toList) (by decide)) Json.Lines.nil
  exact ((Json.Spells.of_reads (Json.Reads.object 4 hmembers)).item 4).congr (by simp)

theorem plain_of_isRangeChar {text : List Char} (h : ∀ c ∈ text, isRangeChar c) : Json.Plain text := fun c hc => by
  have hrange := h c hc
  unfold isRangeChar at hrange
  simp only [Bool.or_eq_true, decide_eq_true_eq] at hrange
  obtain (hdigit | rfl) | rfl := hrange
  · exact Json.plain_of_isDigit hdigit
  · decide
  · decide

theorem ProcessRecord.cpuset_spells (r : ProcessRecord) :
    Json.Spells ((maskText S r.monitor.data.cpuMask).length + 2 < talpOutputCpusetMax) (r.cpusetQuoted S)
      [.str (maskText S r.monitor.data.cpuMask)] := by
  obtain ⟨body, hchars, hcases⟩ :=
    muGetQuotedMask_cases S r.monitor.data.cpuMask [] (by decide : 2 ≤ talpOutputCpusetMax)
  have hplain := plain_of_isRangeChar hchars
  unfold ProcessRecord.cpusetQuoted
  obtain ⟨hlen, htext⟩ | ⟨-, htext⟩ := hcases
  · have hwhole := htext
    rw [htext]
    by_cases hbody : body = maskText S r.monitor.data.cpuMask
    · rw [← hbody]
      exact (Json.Spells.quoted body).congr (iff_of_true hplain hlen)
    · refine (Json.Spells.other hplain hbody).congr (iff_of_false id fun hfits => hbody ?_)
      rw [muGetQuotedMask_of_fits [] hfits] at hwhole
      exact (append_cancel_right (cons.inj hwhole).2).symm
  · have hwhole := htext
    have hquote : '"' ∉ body := fun hq => (hplain _ hq).1 rfl
    rw [htext]
    refine (Json.Spells.unclosed hquote).congr (iff_of_false id fun hfits => hquote ?_)
    rw [muGetQuotedMask_of_fits [] hfits] at hwhole
    exact (cons.inj hwhole).2 ▸ mem_append_right _ (mem_singleton_self _)

theorem ProcessRecord.spells (r : ProcessRecord) :
    Json.Spells (r.Printable S) (r.text S) (Json.tokens (r.json S)) := by
  have hids : ∀ f ∈ [("rank", Number.int r.rank), ("pid", .int r.pid), ("nodeId", .int r.nodeId)],
      Json.Plain f.1.toList := plain_fields [("rank", .int 0), ("pid", .int 0), ("nodeId", .int 0)] rfl (by decide)
  have hmembers := (fieldLines_spell 8 hids).append <|
    Json.Lines.cons ((Json.Spells.quoted r.hostname).member 8 (k := "hostname".toList) (by decide)) <|
    Json.Lines.cons ((r.cpuset_spells (S := S)).member 8 (k := "cpuset".toList) (by decide))
      (fieldLines_spell 8 r.monitor.plain_fields)
  exact ((Json.Spells.of_reads (Json.Reads.object 6 hmembers)).item 6).congr (by simp [Printable])

theorem RegionRecord.spells (r : RegionRecord) :
    Json.Spells (r.Printable S) (r.text S) (.str r.name :: .colon :: Json.tokens (r.json S)) :=
  (Json.Spells.of_reads (Json.Reads.array 4 (Json.Lines.items fun p _ => p.spells))).named 4 r.name
    (Json.endsLine_array _ _)

/-! ### The file -/

def TalpOutput.frontLines (o : TalpOutput) : List (List Char) :=
  [Json.member 2 "dlbVersion".toList (Json.quoted o.commonRecord.dlbVersion),
    Json.member 2 "timestamp".toList (Json.quoted o.commonRecord.timeOfCreation),
    Json.member 2 "resources".toList (Json.object 2 (fieldLines 4 o.resourcesRecord.fields))] ++
  if o.processInfoRecord.pid ≠ 0 then [o.processInfoRecord.text] else []

def TalpOutput.sectionLines (S : System) (o : TalpOutput) : List (List Char) :=
  (if o.popMetricsRecords ≠ [] then [popMetricsText o.popMetricsRecords.reverse] else []) ++
  (if o.nodeRecords ≠ [] then [nodeText o.nodeRecords.reverse] else []) ++
  if o.regionRecords ≠ [] then [processText S o.regionRecords.reverse] else []

def TalpOutput.HasRecords (o : TalpOutput) : Prop :=
  o.popMetricsRecords ≠ [] ∨ o.nodeRecords ≠ [] ∨ o.regionRecords ≠ []

theorem TalpOutput.sectionLines_ne_nil (ho : o.HasRecords) : o.sectionLines S ≠ [] := by
  unfold sectionLines
  obtain h | h | h := ho
  · simp [h]
  · simp [h]
  · simp [h]

theorem nextLine_eq : nextLine = Json.lineEnd true := rfl

theorem frontLines_text (o : TalpOutput) :
    commonToJson o.commonRecord ++ resourcesToJson o.resourcesRecord ++ processInfoToJson o.processInfoRecord =
      o.frontLines.flatMap fun text => text ++ Json.lineEnd true := by
  unfold commonToJson resourcesToJson processInfoToJson TalpOutput.frontLines
  split
  · simp only [nextLine_eq, append_assoc, flatMap_cons, flatMap_nil, cons_append, nil_append,
      append_nil]
  · simp only [nextLine_eq, append_assoc, flatMap_cons, flatMap_nil, append_nil]

theorem sectionLines_text (ho : o.HasRecords) :
    popMetricsToJson o.popMetricsRecords.reverse ++ nodeToJson o.popMetricsRecords.reverse o.nodeRecords.reverse ++
      processToJson S o.popMetricsRecords.reverse o.nodeRecords.reverse o.regionRecords.reverse ++ ['\n'] =
      Json.lines (o.sectionLines S) := by
  unfold popMetricsToJson nodeToJson processToJson TalpOutput.sectionLines
  by_cases hpop : o.popMetricsRecords = []
  · by_cases hnode : o.nodeRecords = []
    · by_cases hregion : o.regionRecords = []
      · exact absurd ho (by simp [TalpOutput.HasRecords, hpop, hnode, hregion])
      · simp [hpop, hnode, hregion, Json.lines, Json.lineEnd]
    · by_cases hregion : o.regionRecords = []
      · simp [hpop, hnode, hregion, Json.lines, Json.lineEnd]
      · simp [hpop, hnode, hregion, Json.lines, Json.lineEnd, nextLine_eq]
  · by_cases hnode : o.nodeRecords = []
    · by_cases hregion : o.regionRecords = []
      · simp [hpop, hnode, hregion, Json.lines, Json.lineEnd]
      · simp [hpop, hnode, hregion, Json.lines, Json.lineEnd, nextLine_eq]
    · by_cases hregion : o.regionRecords = []
      · simp [hpop, hnode, hregion, Json.lines, Json.lineEnd, nextLine_eq]
      · simp [hpop, hnode, hregion, Json.lines, Json.lineEnd, nextLine_eq]

theorem talpOutputFinalize_eq (ho : o.HasRecords) :
    talpOutputFinalize S o = Json.object 0 (o.frontLines ++ o.sectionLines S) ++ ['\n'] := by
  have hheader : jsonHeader = ['\x7b', '\n'] := by decide
  have hfooter : jsonFooter = ['\n', '\x7d', '\n'] := by decide
  rw [Json.object, Json.lines_append (TalpOutput.sectionLines_ne_nil ho), ← frontLines_text, ← sectionLines_text ho,
    talpOutputFinalize, hheader, hfooter]
  simp only [append_assoc, cons_append, nil_append, replicate_zero]

theorem Lines_single {P : Prop} {text : List Char} {name : List Char} {v : Json}
    (h : Json.Spells P text (.str name :: .colon :: Json.tokens v)) :
    Json.Lines P [text] (Json.memberTokens [(name, v)]) :=
  (Json.Lines.cons h Json.Lines.nil).congr (and_iff_left trivial)

theorem memberTokens_ite {p : Prop} [Decidable p] (ms : List (List Char × Json)) :
    Json.memberTokens (if p then ms else []) = if p then Json.memberTokens ms else [] := by
  split
  · rfl
  · rfl

theorem TalpProcessInfoRecord.spells (r : TalpProcessInfoRecord) :
    Json.Spells (Json.Plain r.hostname) r.text (.str "processInfo".toList :: .colon ::
      Json.tokens (.obj (("hostname".toList, .str r.hostname) :: fieldMembers [("pid", .int r.pid)]))) := by
  have hpid : ∀ f ∈ [("pid", Number.int r.pid)], Json.Plain f.1.toList := plain_fields [("pid", .int 0)] rfl (by decide)
  have hmembers := Json.Lines.cons ((Json.Spells.quoted r.hostname).member 4 (k := "hostname".toList) (by decide))
    (fieldLines_spell 4 hpid)
  exact ((Json.Spells.of_reads (Json.Reads.object 2 hmembers)).member 2 (by decide)).congr (and_iff_left trivial)

theorem popMetricsText_spells (records : List PopMetrics) :
    Json.Spells (∀ m ∈ records, Json.Plain m.name) (popMetricsText records) (.str "Application".toList :: .colon ::
      Json.tokens (.obj (records.map fun m => (m.name, m.json)))) :=
  (Json.Spells.of_reads (Json.Reads.object 2 (Json.Lines.members fun m _ => m.spells))).member 2 (by decide)

theorem nodeText_spells (records : List NodeRecord) :
    Json.Spells (∀ _ ∈ records, True) (nodeText records) (.str "node".toList :: .colon ::
      Json.tokens (.arr (records.map NodeRecord.json))) :=
  (Json.Spells.of_reads (Json.Reads.array 2 (Json.Lines.items fun r _ => r.spells))).member 2 (by decide)

theorem processText_spells (records : List RegionRecord) :
    Json.Spells (∀ r ∈ records, r.Printable S) (processText S records) (.str "Process".toList :: .colon ::
      Json.tokens (.obj (records.map fun r => (r.name, r.json S)))) :=
  (Json.Spells.of_reads (Json.Reads.object 2 (Json.Lines.members fun r _ => r.spells))).member 2 (by decide)

theorem TalpOutput.lines_spell (S : System) (o : TalpOutput) :
    Json.Lines (o.Printable S) (o.frontLines ++ o.sectionLines S) (Json.memberTokens (o.members S)) := by
  have hfront : Json.Lines True
      [Json.member 2 "dlbVersion".toList (Json.quoted o.commonRecord.dlbVersion),
        Json.member 2 "timestamp".toList (Json.quoted o.commonRecord.timeOfCreation),
        Json.member 2 "resources".toList (Json.object 2 (fieldLines 4 o.resourcesRecord.fields))]
      (Json.memberTokens [("dlbVersion".toList, .str o.commonRecord.dlbVersion),
        ("timestamp".toList, .str o.commonRecord.timeOfCreation),
        ("resources".toList, .obj (fieldMembers o.resourcesRecord.fields))]) := by
    have hversion : Json.Spells True (Json.quoted o.commonRecord.dlbVersion) [.str o.commonRecord.dlbVersion] :=
      Json.Spells.of_reads (Json.Reads.plain o.commonRecord.plainVersion)
    have htime : Json.Spells True (Json.quoted o.commonRecord.timeOfCreation) [.str o.commonRecord.timeOfCreation] :=
      Json.Spells.of_reads (Json.Reads.plain o.commonRecord.plainTime)
    have hresources := Json.Spells.of_reads (fieldObject_reads 2 4 o.resourcesRecord.plain_fields)
    have hlines := Json.Lines.cons (hversion.member 2 (k := "dlbVersion".toList) (by decide)) <|
      Json.Lines.cons (htime.member 2 (k := "timestamp".toList) (by decide)) <|
      Json.Lines.cons (hresources.member 2 (k := "resources".toList) (by decide)) Json.Lines.nil
    exact hlines.congr (by simp)
  unfold TalpOutput.members TalpOutput.frontLines TalpOutput.sectionLines
  rw [Json.memberTokens_append, Json.memberTokens_append, Json.memberTokens_append, Json.memberTokens_append,
    memberTokens_ite, memberTokens_ite, memberTokens_ite, memberTokens_ite]
  refine Json.Lines.congr ((hfront.append (Json.Lines.ite fun _ => Lines_single o.processInfoRecord.spells)).append
    (((Json.Lines.ite fun _ => Lines_single (popMetricsText_spells o.popMetricsRecords.reverse)).append
      (Json.Lines.ite fun _ => Lines_single (nodeText_spells o.nodeRecords.reverse))).append
      (Json.Lines.ite fun _ => Lines_single (processText_spells o.regionRecords.reverse)))) ⟨fun h => ?_, fun h => ?_⟩
  · obtain ⟨⟨-, hinfo⟩, ⟨hpop, -⟩, hregions⟩ := h
    exact ⟨hinfo, fun m hm => hpop (ne_nil_of_mem hm) m (mem_reverse.mpr hm),
      fun r hr => hregions (ne_nil_of_mem hr) r (mem_reverse.mpr hr)⟩
  · exact ⟨⟨trivial, h.processInfo⟩, ⟨fun _ m hm => h.popMetrics m (mem_reverse.mp hm), fun _ _ _ => trivial⟩,
      fun _ r hr => h.regions r (mem_reverse.mp hr)⟩

/-- **The JSON file**: a decoder accepts it as one object with all the records in order exactly if no name of a region and
no hostname has a quote, a backslash or a control character, and the text of every mask fits into its buffer. -/
theorem json_decodes_iff (S : System) (o : TalpOutput) (ho : o.HasRecords) :
    Json.decode (talpOutputFinalize S o) = some (o.json S) ↔ o.Printable S := by
  have hreads : Json.Reads (o.Printable S) (Json.object 0 (o.frontLines ++ o.sectionLines S) ++ ['\n'])
      (Json.tokens (o.json S) ++ []) :=
    ((Json.Reads.object 0 (o.lines_spell S)).append (Json.Reads.lineEnd false)).congr (and_iff_left trivial)
  rw [append_nil] at hreads
  rw [Json.decode_eq_some, talpOutputFinalize_eq ho]
  exact hreads.lex_iff

theorem maskText_read_back {mask : CpuSet} (hS : S.size ≤ cpuSetsize) (hm : ∀ x ∈ mask, x < S.size)
    (hne : mask.Nonempty) (hfits : (maskText S mask).length + 2 < talpOutputCpusetMax) (result : CpuSet) :
    muParseMask S (maskText S mask) result = mask := by
  refine (muParseMask_muToStr_iff hS hm hne).mpr ?_ result
  have hlen : (maskText S mask).length + 1 = ∑ c ∈ intervalEnds mask, ((decimal c).length + 1) :=
    length_insideBrackets (fun x hx => (hm x hx).trans_le S.size_le_bits) hne
  have hmax : talpOutputCpusetMax ≤ cpuSetsize := by decide
  omega

/-! ### One process -/

/-- The output of a program with one process and one region. -/
def oneRegion (name : List Char) : TalpOutput where
  commonRecord := ⟨"3.6".toList, "2026-01-01T00:00:00".toList, by decide, by decide⟩
  regionRecords :=
    [{ name := name
       processRecords := [{ rank := 0, pid := 1, nodeId := 0, hostname := "node".toList, monitor := {} }] }]

theorem oneRegion_printable {name : List Char} (hname : Json.Plain name) : (oneRegion name).Printable sixCpus where
  processInfo h := absurd rfl h
  popMetrics _ hm := absurd hm not_mem_nil
  regions r hr := by
    rw [mem_singleton.mp hr]
    refine ⟨hname, fun p hp => ?_⟩
    rw [mem_singleton.mp hp]
    exact ⟨by decide, by decide⟩

theorem json_decodes_iff_global :
    Json.decode (talpOutputFinalize sixCpus (oneRegion "Global".toList)) =
      some ((oneRegion "Global".toList).json sixCpus) :=
  (json_decodes_iff sixCpus (oneRegion "Global".toList) (.inr (.inr (cons_ne_nil _ _)))).mpr
    (oneRegion_printable (by decide))

/-- A region may be registered with a quote in its name, and then the file is no JSON. -/
theorem quoted_name_not_decoded :
    (RegionName.text "say \"hi\"".toList).isForbidden = false ∧ (oneRegion "say \"hi\"".toList).HasRecords ∧
      Json.decode (talpOutputFinalize sixCpus (oneRegion "say \"hi\"".toList)) ≠
        some ((oneRegion "say \"hi\"".toList).json sixCpus) := by
  have hnone : (Json.decode (talpOutputFinalize sixCpus (oneRegion "say \"hi\"".toList))).isNone := by decide +kernel
  refine ⟨by decide, .inr (.inr (cons_ne_nil _ _)), fun h => ?_⟩
  rw [h] at hnone
  cases hnone

end Dlb.Talp

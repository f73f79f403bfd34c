import Dlb.Lib.Csv
import Dlb.Support.TruncatedMask
import Dlb.Talp.JsonOutput

/-!
# The CSV output

`pop_metrics_to_csv` puts the name of a region in quotes, `process_to_csv` does not; neither changes it. The mask of a process
is what `mu_get_quoted_mask` has made of it, with its closing quote if there was room.

* `PopMetrics.row_matches_iff`, `ProcessRecord.row_matches_iff`: when one row has the fields of its header.
-/

namespace Dlb.Talp

open List Lib

/-! ## The printers -/

def headerNames (fields : List (String × Number)) : List (List Char) := fields.map fun f => f.1.toList

def columns (fields : List (String × Number)) : List (List Char) := fields.map fun f => f.2.text

/-- The header of `pop_metrics_to_csv`. -/
def popMetricsHeader : List Char := Csv.line ("name".toList :: headerNames (PopMetrics.fields { name := [] }))

def PopMetrics.named (name : List Char) : PopMetrics := { name }

def PopMetrics.csvRow (m : PopMetrics) : List Char := Csv.line (('"' :: (m.name ++ ['"'])) :: columns m.fields)

/-- The rows of `pop_metrics_to_csv`, each with the name of its region. -/
def popMetricsRows (records : List PopMetrics) : List (List Char × List Char) := records.map fun m => (m.name, m.csvRow)

/-- `pop_metrics_to_csv` -/
def popMetricsToCsv (append : Bool) (records : List PopMetrics) : List Char :=
  if records = [] then []
  else (if append then [] else popMetricsHeader) ++ (popMetricsRows records).flatMap Prod.snd

/-- The header of `process_to_csv`. -/
def processHeader : List Char :=
  Csv.line (["Region".toList, "Rank".toList, "PID".toList, "NodeId".toList, "Hostname".toList, "CpuSet".toList] ++
    headerNames (Monitor.fields {}))

section Process

variable (S : System)

def ProcessRecord.csvRow (name : List Char) (p : ProcessRecord) : List Char :=
  Csv.line ([name, (Number.int p.rank).text, (Number.int p.pid).text, (Number.int p.nodeId).text, p.hostname, p.cpusetQuoted S] ++
    columns p.monitor.fields)

/-- The rows of `process_to_csv`, each with the name of its region. -/
def processRows (records : List RegionRecord) : List (List Char × List Char) :=
  records.flatMap fun r => r.processRecords.map fun p => (r.name, p.csvRow S r.name)

/-- `process_to_csv` -/
def processToCsv (append : Bool) (records : List RegionRecord) : List Char :=
  if records = [] then []
  else (if append then [] else processHeader) ++ (processRows S records).flatMap Prod.snd

end Process

/-! ## What the rows are for -/

/-- The row has as many fields as the header, and the first one is the name. -/
def RowMatches (header name row : List Char) : Prop :=
  ∃ names fields, Csv.read .start header = some names ∧ Csv.read .start row = some fields ∧
    fields.length = names.length ∧ fields.head? = some name

/-- What `gethostname` gives: letters, digits, hyphens and dots. -/
def HostName (text : List Char) : Prop := ∀ c ∈ text, c.isAlphanum ∨ c = '-' ∨ c = '.'

variable {S : System}

/-! ## Plain fields -/

theorem HostName.plain {text : List Char} (h : HostName text) : Csv.Plain text := fun c hc => by
  have hno : ∀ d : Char, ¬d.isAlphanum → d ≠ '-' → d ≠ '.' → c ≠ d := by
    rintro d halpha hhyphen hdot rfl
    rcases h c hc with h | h | h
    · exact halpha h
    · exact hhyphen h
    · exact hdot h
  exact ⟨hno _ (by decide) (by decide) (by decide), hno _ (by decide) (by decide) (by decide),
    hno _ (by decide) (by decide) (by decide), hno _ (by decide) (by decide) (by decide)⟩

theorem plainChar_of_isDigit {c : Char} (h : c.isDigit) : Csv.PlainChar c := by
  have hno : ∀ d : Char, ¬d.isDigit → c ≠ d := by
    rintro d hd rfl
    exact hd h
  exact ⟨hno _ (by decide), hno _ (by decide), hno _ (by decide), hno _ (by decide)⟩

theorem plain_numeral (negative : Bool) (n : ℕ) {text : List Char} (htext : ∀ d ∈ text, d.isDigit) :
    Csv.Plain (Json.numeral negative n text) := fun c hc => by
  obtain hdigit | rfl | rfl := Json.mem_numeral htext hc
  · exact plainChar_of_isDigit hdigit
  · decide
  · decide

theorem Number.csv_plain (x : Number) : Csv.Plain x.text := by
  cases x with
  | int x => exact plain_numeral _ _ nofun
  | decimal d => exact plain_numeral _ _ d.isDigit_digits

theorem plain_columns (fields : List (String × Number)) : ∀ text ∈ columns fields, Csv.Plain text := fun text htext => by
  obtain ⟨f, -, rfl⟩ := mem_map.mp htext
  exact f.2.csv_plain

theorem columns_ne_nil {fields : List (String × Number)} (hne : fields ≠ []) : columns fields ≠ [] :=
  mt map_eq_nil_iff.mp hne

/-! ## One row -/

theorem read_popMetricsHeader : Csv.read .start popMetricsHeader =
    some ("name".toList :: headerNames (PopMetrics.fields { name := [] })) :=
  Csv.read_line (cons_ne_nil _ _) <| by
    simp only [headerNames, PopMetrics.fields, map_cons, map_nil, Lib.toList_literal]
    decide

theorem read_processHeader : Csv.read .start processHeader =
    some (["Region".toList, "Rank".toList, "PID".toList, "NodeId".toList, "Hostname".toList, "CpuSet".toList] ++
      headerNames (Monitor.fields {})) :=
  Csv.read_line (cons_ne_nil _ _) <| by
    simp only [headerNames, Monitor.fields, map_cons, map_nil, cons_append, nil_append, Lib.toList_literal]
    decide

theorem rowMatches_iff {header name row : List Char} {names : List (List Char)}
    (hheader : Csv.read .start header = some names) :
    RowMatches header name row ↔
      ∃ fields, Csv.read .start row = some (name :: fields) ∧ (name :: fields).length = names.length := by
  unfold RowMatches
  rw [hheader]
  constructor
  · rintro ⟨names', fields, hnames, hread, hlength, hhead⟩
    obtain rfl := Option.some.inj hnames
    obtain ⟨fields, rfl⟩ := head?_eq_some_iff.mp hhead
    exact ⟨fields, hread, hlength⟩
  · rintro ⟨fields, hread, hlength⟩
    exact ⟨_, _, rfl, hread, hlength, rfl⟩

theorem PopMetrics.row_matches_iff (m : PopMetrics) : RowMatches popMetricsHeader m.name m.csvRow ↔ '"' ∉ m.name := by
  have hfields : m.fields ≠ [] := cons_ne_nil _ _
  have hrow : m.csvRow = '"' :: (m.name ++ '"' :: ',' :: Csv.line (columns m.fields)) := by
    rw [PopMetrics.csvRow, Csv.line_cons (columns_ne_nil hfields), cons_append, append_assoc]
    rfl
  rw [rowMatches_iff read_popMetricsHeader, hrow]
  constructor
  · rintro ⟨fields, hread, -⟩
    exact Csv.noQuote_of_read hread
  · intro hname
    refine ⟨columns m.fields, ?_, by simp only [length_cons, columns, headerNames, length_map]; rfl⟩
    rw [Csv.read_quoted_field hname, Csv.read_line (columns_ne_nil hfields) (plain_columns _)]
    rfl

theorem ProcessRecord.cpusetQuoted_cases (S : System) (p : ProcessRecord) :
    ∃ body, '"' ∉ body ∧ ((p.cpusetQuoted S = '"' :: (body ++ ['"']) ∧ (p.cpusetQuoted S).getLast? = some '"') ∨
      (p.cpusetQuoted S = '"' :: body ∧ (p.cpusetQuoted S).getLast? ≠ some '"')) := by
  obtain ⟨body, hchars, hcases⟩ :=
    muGetQuotedMask_cases S p.monitor.data.cpuMask [] (by decide : 2 ≤ talpOutputCpusetMax)
  have hquote : '"' ∉ body := fun hmem => absurd (hchars _ hmem) (by decide)
  refine ⟨body, hquote, ?_⟩
  rcases hcases with ⟨-, heq⟩ | ⟨hlong, heq⟩
  · have hclosed : p.cpusetQuoted S = '"' :: (body ++ ['"']) := heq
    rw [hclosed, ← cons_append]
    exact .inl ⟨rfl, getLast?_concat⟩
  · have hopen : p.cpusetQuoted S = '"' :: body := heq
    rw [hopen]
    refine .inr ⟨rfl, fun hlast => ?_⟩
    have hne : body ≠ [] := by
      rintro rfl
      exact hlong (by decide)
    rw [getLast?_cons, getLast?_eq_some_getLast hne, Option.getD_some] at hlast
    exact hquote (Option.some.inj hlast ▸ getLast_mem hne)

theorem ProcessRecord.row_matches_iff (p : ProcessRecord) (hhost : HostName p.hostname) (name : List Char) :
    RowMatches processHeader name (p.csvRow S name) ↔ Csv.Plain name ∧ (p.cpusetQuoted S).getLast? = some '"' := by
  have hfields : p.monitor.fields ≠ [] := cons_ne_nil _ _
  have hcolumns := columns_ne_nil hfields
  have hnumbers : ∀ text ∈ [(Number.int p.rank).text, (Number.int p.pid).text, (Number.int p.nodeId).text, p.hostname],
      Csv.Plain text := by
    simp only [forall_mem_cons]
    exact ⟨Number.csv_plain _, Number.csv_plain _, Number.csv_plain _, hhost.plain, nofun⟩
  have hrow : p.csvRow S name = Csv.line (name ::
      ([(Number.int p.rank).text, (Number.int p.pid).text, (Number.int p.nodeId).text, p.hostname] ++
        p.cpusetQuoted S :: columns p.monitor.fields)) := rfl
  rw [rowMatches_iff read_processHeader, hrow,
    Csv.line_cons (append_ne_nil_of_right_ne_nil _ (cons_ne_nil _ _))]
  have hbehind := Csv.read_line_append hnumbers (cons_ne_nil (p.cpusetQuoted S) (columns p.monitor.fields))
  rw [Csv.line_cons hcolumns] at hbehind
  obtain ⟨body, hbody, ⟨hcpuset, hlast⟩ | ⟨hcpuset, hlast⟩⟩ := p.cpusetQuoted_cases S
  · rw [and_iff_left hlast]
    constructor
    · rintro ⟨fields, hread, -⟩
      exact Csv.plain_of_read (.inl rfl) hread
    · intro hname
      refine ⟨[(Number.int p.rank).text, (Number.int p.pid).text, (Number.int p.nodeId).text, p.hostname] ++
        body :: columns p.monitor.fields, ?_, rfl⟩
      rw [Csv.read_plain_field (.inl rfl) hname, hbehind, hcpuset, cons_append, append_assoc,
        singleton_append, Csv.read_quoted_field hbody, Csv.read_line hcolumns (plain_columns _)]
      rfl
  · refine iff_of_false ?_ fun h => hlast h.2
    rintro ⟨fields, hread, -⟩
    have hname := Csv.plain_of_read (.inl rfl) hread
    have hnone : Csv.read .quoted (body ++ ',' :: Csv.line (columns p.monitor.fields)) = none :=
      Csv.read_unclosed fun hmem => (mem_append.mp hmem).elim hbody fun hrest =>
        (mem_cons.mp hrest).elim (by decide) (Csv.noQuote_line (plain_columns _))
    have hopen : Csv.read .start (p.cpusetQuoted S ++ ',' :: Csv.line (columns p.monitor.fields)) = none := hcpuset ▸ hnone
    rw [Csv.read_plain_field (.inl rfl) hname, hbehind, hopen] at hread
    cases hread

/-- **The rows have the fields of their headers**, and the names of their regions, exactly if no name needs an escape, no
name of a process row needs quotes, and each mask has its closing quote. -/
theorem csv_rows_match_iff (S : System) (popMetrics : List PopMetrics) (regions : List RegionRecord)
    (hhost : ∀ r ∈ regions, ∀ p ∈ r.processRecords, HostName p.hostname) :
    ((∀ row ∈ popMetricsRows popMetrics, RowMatches popMetricsHeader row.1 row.2) ∧
        ∀ row ∈ processRows S regions, RowMatches processHeader row.1 row.2) ↔
      (∀ m ∈ popMetrics, '"' ∉ m.name) ∧
        ∀ r ∈ regions, ∀ p ∈ r.processRecords, Csv.Plain r.name ∧ (p.cpusetQuoted S).getLast? = some '"' := by
  have hrows : (∀ row ∈ processRows S regions, RowMatches processHeader row.1 row.2) ↔
      ∀ r ∈ regions, ∀ p ∈ r.processRecords, RowMatches processHeader r.name (p.csvRow S r.name) := by
    unfold processRows
    rw [forall_mem_flatMap]
    exact forall₂_congr fun r _ => forall_mem_map
  rw [hrows, popMetricsRows, forall_mem_map]
  refine and_congr (forall₂_congr fun m _ => m.row_matches_iff) ?_
  exact forall₂_congr fun r hr => forall₂_congr fun p hp => p.row_matches_iff (hhost r hr p hp) r.name

def threeCpuRecord (rank : ℤ) : ProcessRecord where
  rank := rank
  pid := 7
  nodeId := 0
  hostname := "node-0.site".toList
  monitor := { data := { cpuMask := {0, 1, 2} } }

theorem threeCpuRecord_closed (rank : ℤ) : ((threeCpuRecord rank).cpusetQuoted sixCpus).getLast? = some '"' := by
  have htext : maskText sixCpus {0, 1, 2} = ['0', '-', '2'] := by
    rw [← flatten_maskPieces, maskPieces_sixCpus]
    rfl
  have hfits : (maskText sixCpus {0, 1, 2}).length + 2 < talpOutputCpusetMax := by
    rw [htext]
    decide
  have hquoted : (threeCpuRecord rank).cpusetQuoted sixCpus = '"' :: (maskText sixCpus {0, 1, 2} ++ ['"']) :=
    muGetQuotedMask_of_fits [] hfits
  rw [hquoted, htext]
  rfl

theorem threeCpuRecord_hostName (rank : ℤ) : HostName (threeCpuRecord rank).hostname := by
  have h : ("node-0.site".toList.all fun c => decide (c.isAlphanum ∨ c = '-' ∨ c = '.')) = true := by decide
  exact fun c hc => of_decide_eq_true (all_eq_true.mp h c hc)

/-- A region of two ranks, and the metrics of one whose name has a comma in it. -/
theorem csv_rows_match_two :
    (∀ row ∈ popMetricsRows [{ name := "a,b".toList }], RowMatches popMetricsHeader row.1 row.2) ∧
      ∀ row ∈ processRows sixCpus [⟨"loop 1".toList, [threeCpuRecord 0, threeCpuRecord 1]⟩],
        RowMatches processHeader row.1 row.2 := by
  have hprocess : ∀ {P : RegionRecord → ProcessRecord → Prop} {r : RegionRecord}, r.processRecords =
      [threeCpuRecord 0, threeCpuRecord 1] → (∀ rank, P r (threeCpuRecord rank)) → ∀ p ∈ r.processRecords, P r p := by
    intro P r hr h p hp
    rw [hr, mem_cons, mem_singleton] at hp
    rcases hp with rfl | rfl
    · exact h 0
    · exact h 1
  refine (csv_rows_match_iff sixCpus _ _ ?_).mpr ⟨by decide, ?_⟩
  · intro r hr
    obtain rfl := mem_singleton.mp hr
    exact hprocess (P := fun _ p => HostName p.hostname) rfl threeCpuRecord_hostName
  · intro r hr
    obtain rfl := mem_singleton.mp hr
    exact hprocess (P := fun r p => Csv.Plain r.name ∧ (p.cpusetQuoted sixCpus).getLast? = some '"') rfl fun rank =>
      ⟨by decide, threeCpuRecord_closed rank⟩

/-- A region whose name has a comma in it. -/
theorem comma_in_name : ¬RowMatches processHeader "a,b".toList ((threeCpuRecord 0).csvRow sixCpus "a,b".toList) := by
  rw [ProcessRecord.row_matches_iff _ (threeCpuRecord_hostName 0)]
  exact fun h => absurd h.1 (by decide)

end Dlb.Talp

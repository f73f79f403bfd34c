import Dlb.Support.Options
import Dlb.Talp.CsvOutput

/-!
# The names of the output files

`expand_output_filename` measures a template in a first pass and writes in a second one. `talp_output_finalize` takes the
extension from the name as it is given, expands the name, and splits a `.csv` that is for several kinds of records.

* `fillBuffer_expands`, `length_fillBuffer`: both passes against the replacement of the placeholders.
-/

namespace Dlb.Talp

open List

/-! ## The template -/

/-- What the names depend on besides the options. -/
structure Environment where
  hostname : List Char
  pid : Pid
  getenv : String → Option (List Char)

/-- The variables of `get_job_id`, in order. -/
def jobIdVars : List String := ["SLURM_JOB_ID", "SLURM_JOBID", "FLUX_JOB_ID", "PBS_JOBID", "LSB_JOBID", "JOB_ID"]

/-- `get_job_id` -/
def getJobId (getenv : String → Option (List Char)) : Option (List Char) :=
  jobIdVars.findSome? fun var => (getenv var).filter (· ≠ [])

/-- `pid_buf` -/
def Environment.pidBuf (env : Environment) : List Char := decimal env.pid

/-- `job_str` -/
def Environment.jobStr (env : Environment) : List Char := (getJobId env.getenv).getD ['0']

section Passes

variable (env : Environment)

/-- The first loop of `expand_output_filename`. -/
def outLen (len : ℕ) : List Char → ℕ
  | '%' :: 'h' :: template => outLen (len + env.hostname.length) template
  | '%' :: 'p' :: template => outLen (len + env.pidBuf.length) template
  | '%' :: 'j' :: template => outLen (len + env.jobStr.length) template
  | '%' :: '%' :: template => outLen (len + 1) template
  | _ :: template => outLen (len + 1) template
  | [] => len

def fillBuffer (out : List Char) : List Char → List Char
  | '%' :: 'h' :: template => fillBuffer (out ++ env.hostname) template
  | '%' :: 'p' :: template => fillBuffer (out ++ env.pidBuf) template
  | '%' :: 'j' :: template => fillBuffer (out ++ env.jobStr) template
  | '%' :: '%' :: template => fillBuffer (out ++ ['%']) template
  | c :: template => fillBuffer (out ++ [c]) template
  | [] => out

/-- `expand_output_filename` -/
def expandOutputFilename (template : List Char) : Option (List Char) :=
  if '%' ∉ template then none
  else if pathMax < outLen env 0 template then none
  else some (fillBuffer env [] template)

end Passes

/-! ## The files -/

/-- `strrchr`, as the place of the character. -/
def strrchr (c : Char) : List Char → Option ℕ
  | [] => none
  | d :: s => match strrchr c s with
    | some i => some (i + 1)
    | none => if d = c then some 0 else none

/-- An integer as an `int`. -/
def toInt (n : ℤ) : ℤ := n.bmod (2 ^ 32)

/-- What `%.*s` prints. A negative precision counts as none. -/
def precision (n : ℤ) (s : List Char) : List Char := if n < 0 then s else s.take n.toNat

/-- `build_partial_template`; without a dot it ends the program. -/
def buildPartialTemplate (filename : List Char) : Option (List Char) :=
  (strrchr '.' filename).map fun baseLen =>
    let ext := filename.drop baseLen
    (precision (toInt baseLen) filename ++ "_%h_%p.partial".toList ++ ext).take
      (baseLen + "_%h_%p.partial".toList.length + ext.length)

/-- `extension_t` -/
inductive Extension where
  | json | xml | csv | txt
deriving DecidableEq

/-- The extension of a name, from the place of its last dot. -/
def extension (name : List Char) (ext : Option ℕ) : Extension :=
  match ext with
  | none => .txt
  | some dot =>
    if name.drop (dot + 1) = "json".toList then .json
    else if name.drop (dot + 1) = "xml".toList then .xml
    else if name.drop (dot + 1) = "csv".toList then .csv
    else .txt

/-- The texts that `output_file` points to, first and later. -/
inductive Text where
  | given | expanded
deriving DecidableEq

structure Pointer where
  text : Text
  offset : ℕ

/-- The difference of two pointers, which has no value if they are into different texts. -/
def Pointer.sub (p q : Pointer) : Option ℤ := if p.text = q.text then some (p.offset - q.offset) else none

/-- One name of a split, which has to fit in the buffer of `filename_useful_len + strlen(ext) + 1` bytes. -/
def splitName (usefulLen : ℤ) (name ext : List Char) : Option (List Char) :=
  let text := precision usefulLen name ++ ext
  if (text.length : ℤ) ≤ usefulLen + ext.length then some text else none

/-- The kinds of records that there are, as the endings of their files. -/
def TalpOutput.splitExts (o : TalpOutput) : List (List Char) :=
  (if o.popMetricsRecords ≠ [] then ["-pop.csv".toList] else []) ++
  (if o.nodeRecords ≠ [] then ["-node.csv".toList] else []) ++
  (if o.regionRecords ≠ [] then ["-process.csv".toList] else [])

/-- The names that `talp_output_finalize` opens. There is no answer where the program ends, or computes nothing defined. -/
def openedFiles (env : Environment) (o : TalpOutput) (outputFile : List Char) (partialOutput : Bool) :
    Option (List (List Char)) := do
  if o.splitExts = [] then
    return []
  let dot := strrchr '.' outputFile
  let ext := extension outputFile dot
  let template ← if partialOutput ∧ ext = .json then buildPartialTemplate outputFile else some outputFile
  let filename := expandOutputFilename env template
  let name := filename.getD outputFile
  if ext = .csv ∧ 1 < o.splitExts.length then
    let usefulLen ← Pointer.sub ⟨.given, dot.getD 0⟩ ⟨if filename.isSome then .expanded else .given, 0⟩
    o.splitExts.mapM (splitName (toInt usefulLen) name)
  else
    return [name]

/-! ## The replacement of placeholders -/

section Spec

variable (env : Environment)

/-- What a character after a `%` stands for. -/
def placeholder : Char → Option (List Char)
  | 'h' => some env.hostname
  | 'p' => some env.pidBuf
  | 'j' => some env.jobStr
  | '%' => some ['%']
  | _ => none

/-- A text with each placeholder replaced, from the left. -/
inductive Expands : List Char → List Char → Prop
  | nil : Expands [] []
  | replace {c : Char} {text rest out : List Char} (h : placeholder env c = some text) (hrest : Expands rest out) :
      Expands ('%' :: c :: rest) (text ++ out)
  | literal {c : Char} {rest out : List Char} (h : ∀ d ∈ rest.head?, c = '%' → placeholder env d = none)
      (hrest : Expands rest out) : Expands (c :: rest) (c :: out)

/-- The names are right: `expand_output_filename` writes what it has measured, what is used has its placeholders replaced,
and the files of a split are named after that. -/
structure OutputNamesRight (o : TalpOutput) (outputFile : List Char) (partialOutput : Bool) : Prop where
  measured : ∀ out, expandOutputFilename env outputFile = some out → out.length = outLen env 0 outputFile
  replaced : Expands env outputFile ((expandOutputFilename env outputFile).getD outputFile)
  split : ∀ base, outputFile = base ++ ".csv".toList → 1 < o.splitExts.length →
    ∃ name, Expands env outputFile (name ++ ".csv".toList) ∧
      openedFiles env o outputFile partialOutput = some (o.splitExts.map (name ++ ·))

end Spec

variable {env : Environment}

namespace Expands

variable {s t out out' : List Char}

theorem det (h : Expands env s out) (h' : Expands env s out') : out = out' := by
  induction h generalizing out' with
  | nil => cases h'; rfl
  | replace h _ ih =>
    cases h' with
    | replace h' hrest =>
      rw [h] at h'
      rw [Option.some.inj h', ih hrest]
    | literal h' hrest => simp [h] at h'
  | literal h _ ih =>
    cases h' with
    | replace h' hrest => simp [h'] at h
    | literal h' hrest => rw [ih hrest]

theorem of_not_mem : ∀ {s : List Char}, '%' ∉ s → Expands env s s
  | [], _ => nil
  | c :: s, h => by
    rw [mem_cons, not_or] at h
    exact literal (fun d _ hc => absurd hc.symm h.1) (of_not_mem h.2)

end Expands

/-! ## The two passes -/

theorem placeholder_eq_none {c : Char} (hh : c ≠ 'h') (hp : c ≠ 'p') (hj : c ≠ 'j') (hper : c ≠ '%') :
    placeholder env c = none := by
  unfold placeholder
  split <;> first | contradiction | rfl

theorem fillBuffer_expands (env : Environment) (out template : List Char) :
    ∃ text, fillBuffer env out template = out ++ text ∧ Expands env template text := by
  fun_induction fillBuffer env out template with
  | case1 out template ih =>
    obtain ⟨text, heq, hexp⟩ := ih
    exact ⟨env.hostname ++ text, by rw [heq, append_assoc], .replace rfl hexp⟩
  | case2 out template ih =>
    obtain ⟨text, heq, hexp⟩ := ih
    exact ⟨env.pidBuf ++ text, by rw [heq, append_assoc], .replace rfl hexp⟩
  | case3 out template ih =>
    obtain ⟨text, heq, hexp⟩ := ih
    exact ⟨env.jobStr ++ text, by rw [heq, append_assoc], .replace rfl hexp⟩
  | case4 out template ih =>
    obtain ⟨text, heq, hexp⟩ := ih
    exact ⟨['%'] ++ text, by rw [heq, append_assoc], .replace rfl hexp⟩
  | case5 out c template hh hp hj hper ih =>
    obtain ⟨text, heq, hexp⟩ := ih
    refine ⟨c :: text, by rw [heq, append_assoc]; rfl, .literal (fun d hd hc => ?_) hexp⟩
    obtain ⟨rest, rfl⟩ := head?_eq_some_iff.mp hd
    exact placeholder_eq_none (fun h => hh rest hc (h ▸ rfl)) (fun h => hp rest hc (h ▸ rfl))
      (fun h => hj rest hc (h ▸ rfl)) (fun h => hper rest hc (h ▸ rfl))
  | case6 out => exact ⟨[], (append_nil _).symm, .nil⟩

theorem length_fillBuffer (out template : List Char) :
    (fillBuffer env out template).length = outLen env out.length template := by
  fun_induction fillBuffer env out template with
  | case1 out template ih => rw [ih, outLen, length_append]
  | case2 out template ih => rw [ih, outLen, length_append]
  | case3 out template ih => rw [ih, outLen, length_append]
  | case4 out template ih => rw [ih, outLen, length_append]; rfl
  | case5 out c template hh hp hj hper ih =>
    rw [ih, outLen, length_append]
    · rfl
    all_goals assumption
  | case6 out => rfl

theorem expandOutputFilename_cases (env : Environment) (template : List Char) :
    (expandOutputFilename env template = none ∧ '%' ∉ template) ∨
    (expandOutputFilename env template = none ∧ '%' ∈ template ∧ ∃ text, Expands env template text ∧ pathMax < text.length) ∨
    ∃ text, expandOutputFilename env template = some text ∧ '%' ∈ template ∧ Expands env template text ∧
      text.length = outLen env 0 template ∧ text.length ≤ pathMax := by
  obtain ⟨text, heq, hexp⟩ := fillBuffer_expands env [] template
  rw [nil_append] at heq
  have hlen : text.length = outLen env 0 template := by rw [← heq]; exact length_fillBuffer [] template
  unfold expandOutputFilename
  by_cases hmem : '%' ∈ template
  · rw [if_neg (not_not_intro hmem), heq, ← hlen]
    split
    · next hlong => exact .inr (.inl ⟨rfl, hmem, text, hexp, hlong⟩)
    · next hlong => exact .inr (.inr ⟨text, rfl, hmem, hexp, rfl, Nat.le_of_not_lt hlong⟩)
  · exact .inl ⟨if_pos hmem, hmem⟩

theorem measured {template out : List Char} (h : expandOutputFilename env template = some out) :
    out.length = outLen env 0 template := by
  obtain ⟨hnone, -⟩ | ⟨hnone, -⟩ | ⟨text, hsome, -, -, hlen, -⟩ := expandOutputFilename_cases env template
  · rw [hnone] at h; cases h
  · rw [hnone] at h; cases h
  · rw [hsome] at h
    rw [← Option.some.inj h, hlen]

theorem replaced_iff {template : List Char} :
    Expands env template ((expandOutputFilename env template).getD template) ↔
      ∃ text, Expands env template text ∧ (text.length ≤ pathMax ∨ text = template) := by
  obtain ⟨hnone, hmem⟩ | ⟨hnone, -, text, hexp, hlong⟩ | ⟨text, hsome, -, hexp, -, hshort⟩ :=
    expandOutputFilename_cases env template
  · rw [hnone, Option.getD_none]
    exact ⟨fun h => ⟨template, h, .inr rfl⟩, fun _ => .of_not_mem hmem⟩
  · rw [hnone, Option.getD_none]
    constructor
    · exact fun h => ⟨template, h, .inr rfl⟩
    · rintro ⟨text', hexp', hshort | rfl⟩
      · rw [hexp'.det hexp] at hshort
        omega
      · exact hexp'
  · rw [hsome, Option.getD_some]
    exact ⟨fun h => ⟨text, h, .inl hshort⟩, fun _ => hexp⟩

/-! ## The split -/

theorem strrchr_append {c : Char} {ext : List Char} (h : c ∉ ext) :
    ∀ base : List Char, strrchr c (base ++ c :: ext) = some base.length
  | [] => by
    have hnone : ∀ s : List Char, c ∉ s → strrchr c s = none := fun s => by
      induction s with
      | nil => exact fun _ => rfl
      | cons d s ih =>
        intro hs
        rw [mem_cons, not_or] at hs
        rw [strrchr, ih hs.2]
        exact if_neg (Ne.symm hs.1)
    rw [nil_append, strrchr, hnone ext h]
    exact if_pos rfl
  | d :: base => by rw [cons_append, strrchr, strrchr_append h base]; rfl

theorem toInt_of_lt {n : ℕ} (h : n < 2 ^ 31) : toInt n = n := by
  unfold toInt
  rw [Int.bmod_def]
  split <;> omega

theorem toInt_lt (n : ℤ) : toInt n < 2 ^ 31 := by
  unfold toInt
  rw [Int.bmod_def]
  split <;> omega

theorem splitName_eq_iff {base rest ext : List Char} :
    splitName (toInt base.length) (base ++ rest) ext = some (base ++ ext) ↔ base.length < 2 ^ 31 := by
  unfold splitName
  constructor
  · intro h
    dsimp only at h
    split at h
    · next hfits =>
      rw [Option.some.inj h, length_append] at hfits
      have hlt := toInt_lt base.length
      omega
    · cases h
  · intro hlt
    have htext : precision (toInt base.length) (base ++ rest) = base := by
      unfold precision
      rw [toInt_of_lt hlt, if_neg (by omega), Int.toNat_natCast, take_left]
    rw [htext, toInt_of_lt hlt]
    exact if_pos (by rw [length_append]; omega)

theorem mapM_splitName_iff {base rest : List Char} {exts : List (List Char)} (hne : exts ≠ []) :
    exts.mapM (splitName (toInt base.length) (base ++ rest)) = some (exts.map (base ++ ·)) ↔ base.length < 2 ^ 31 := by
  constructor
  · intro h
    obtain ⟨ext, exts, rfl⟩ := exists_cons_of_ne_nil hne
    rw [mapM_cons] at h
    obtain ⟨name, hname, h⟩ := Option.bind_eq_some_iff.mp h
    obtain ⟨names, -, h⟩ := Option.bind_eq_some_iff.mp h
    rw [(cons.inj (Option.some.inj h)).1] at hname
    exact splitName_eq_iff.mp hname
  · intro hlt
    have heach : splitName (toInt base.length) (base ++ rest) = fun ext => pure (base ++ ext) :=
      funext fun ext => splitName_eq_iff.mpr hlt
    rw [heach]
    exact mapM_pure

theorem openedFiles_split {o : TalpOutput} {base : List Char} {partialOutput : Bool} (hkinds : 1 < o.splitExts.length) :
    openedFiles env o (base ++ ".csv".toList) partialOutput =
      if (expandOutputFilename env (base ++ ".csv".toList)).isSome then none
      else o.splitExts.mapM (splitName (toInt base.length) (base ++ ".csv".toList)) := by
  have hdot : strrchr '.' (base ++ ".csv".toList) = some base.length := strrchr_append (by decide) base
  have hext : extension (base ++ ".csv".toList) (some base.length) = .csv := by
    have hdrop : (base ++ ".csv".toList).drop (base.length + 1) = "csv".toList := by
      rw [← drop_drop, drop_left]
      rfl
    unfold extension
    simp only [hdrop]
    rfl
  have hne : o.splitExts ≠ [] := ne_nil_of_length_pos (Nat.lt_of_succ_lt hkinds)
  have hjson : ¬(partialOutput = true ∧ Extension.csv = Extension.json) := fun h => nomatch h.2
  unfold openedFiles
  simp only [hdot, hext, if_neg hne, if_neg hjson, Option.bind_eq_bind, Option.bind_some, Option.getD_some, hkinds, and_self,
    if_true]
  cases hexp : expandOutputFilename env (base ++ ".csv".toList) with
  | none =>
    have hsub : Pointer.sub ⟨.given, base.length⟩ ⟨.given, 0⟩ = some (base.length : ℤ) := by
      rw [Pointer.sub, if_pos rfl, Int.natCast_zero, Int.sub_zero]
    exact (congrArg (Option.bind · _) hsub).trans rfl
  | some text => rfl

/-- The names are right exactly if what the name stands for fits in `PATH_MAX` or is the name itself, and a name that is
split has nothing that is expanded, and a length that is an `int`. -/
theorem output_names_right_iff (env : Environment) (o : TalpOutput) (outputFile : List Char) (partialOutput : Bool) :
    OutputNamesRight env o outputFile partialOutput ↔
      (∃ text, Expands env outputFile text ∧ (text.length ≤ pathMax ∨ text = outputFile)) ∧
      ∀ base, outputFile = base ++ ".csv".toList → 1 < o.splitExts.length →
        base.length < 2 ^ 31 ∧ ('%' ∉ outputFile ∨ ∃ text, Expands env outputFile text ∧ pathMax < text.length) := by
  constructor
  · rintro ⟨-, hreplaced, hsplit⟩
    refine ⟨replaced_iff.mp hreplaced, ?_⟩
    rintro base rfl hkinds
    obtain ⟨name, hname, hopened⟩ := hsplit base rfl hkinds
    have hne : o.splitExts ≠ [] := ne_nil_of_length_pos (Nat.lt_of_succ_lt hkinds)
    rw [openedFiles_split hkinds] at hopened
    -- the difference of the two pointers is taken, so both are into the name as it was given
    have hraw : expandOutputFilename env (base ++ ".csv".toList) = none := by
      by_contra h
      rw [if_pos (Option.isSome_iff_ne_none.mpr h)] at hopened
      cases hopened
    rw [hraw] at hreplaced hopened
    have hbase : name = base := append_cancel_right (hname.det hreplaced)
    rw [hbase] at hopened
    refine ⟨(mapM_splitName_iff hne).mp hopened, ?_⟩
    obtain ⟨-, hmem⟩ | ⟨-, -, hlong⟩ | ⟨text, hsome, -⟩ :=
      expandOutputFilename_cases env (base ++ ".csv".toList)
    · exact .inl hmem
    · exact .inr hlong
    · rw [hraw] at hsome
      cases hsome
  · rintro ⟨hfits, hsplit⟩
    have hreplaced := replaced_iff.mpr hfits
    refine ⟨fun out => measured, hreplaced, ?_⟩
    rintro base rfl hkinds
    obtain ⟨hlt, hraw⟩ := hsplit base rfl hkinds
    have hne : o.splitExts ≠ [] := ne_nil_of_length_pos (Nat.lt_of_succ_lt hkinds)
    have hnone : expandOutputFilename env (base ++ ".csv".toList) = none := by
      obtain ⟨hnone, -⟩ | ⟨hnone, -⟩ | ⟨text, -, hmem, hexp, -, hshort⟩ :=
        expandOutputFilename_cases env (base ++ ".csv".toList)
      · exact hnone
      · exact hnone
      · obtain hmem' | ⟨text', hexp', hlong⟩ := hraw
        · exact absurd hmem hmem'
        · rw [hexp'.det hexp] at hlong
          exact absurd hlong (Nat.not_lt_of_le hshort)
    rw [hnone] at hreplaced
    refine ⟨base, hreplaced, ?_⟩
    rw [openedFiles_split hkinds, hnone]
    exact (mapM_splitName_iff hne).mpr hlt

/-- A process that has records of its regions and POP metrics. -/
def popAndProcess : TalpOutput where
  commonRecord := ⟨[], [], nofun, nofun⟩
  popMetricsRecords := [.named "Global".toList]
  regionRecords := [⟨"Global".toList, []⟩]

def nodeOne : Environment := ⟨"node1".toList, 1234, fun _ => none⟩

example : expandOutputFilename nodeOne "%h/%p-%j%%%x%".toList = some "node1/1234-0%%x%".toList := by decide

/-- A template for the file of each process, with two kinds of records. -/
theorem template_split : ¬OutputNamesRight nodeOne popAndProcess "t_%p.csv".toList false := by
  rintro ⟨-, -, hsplit⟩
  obtain ⟨name, -, hopened⟩ := hsplit "t_%p".toList rfl (by decide)
  have hnone : openedFiles nodeOne popAndProcess "t_%p.csv".toList false = none := by decide
  cases hopened

end Dlb.Talp

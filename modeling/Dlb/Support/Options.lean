import Mathlib.Data.List.Basic
import Mathlib.Data.List.Induction
import Dlb.Support.ParseArgs

/-!
# The values of the options

`options_init` takes one option after the other out of the arguments of `DLB_Init` and of those in `DLB_ARGS`, and gives
the value that it finds to `set_value`; only warnings come of comparing the two. `set_value` and the comparisons of values
are left out, except that paths are compared as if the buffers held pointers.

* `optionsInit_eq`: what the loop passes to `set_value`, in terms of the tokens of both strings.
-/

namespace Dlb

open List

/-- `MAX_OPTION_LENGTH` -/
def maxOptionLength : ℕ := 64

/-- `PATH_MAX` -/
def pathMax : ℕ := 4096

/-- `option_type_t` -/
inductive OptionType where
  | bool | negBool | int | str | ptrPath | vb | vbfmt | inst | dbg | lewiAff | mask | mode | mpiset | omptopts | tlpsum
  | tlpmod | tlpcom | mngoMode | omptm
deriving DecidableEq

/-- `opts_dict_t`. All the options of the dictionary are `OPT_OPTIONAL`. -/
structure OptsDict where
  varName : List Char
  argName : List Char
  defaultValue : List Char
  type : OptionType
  unused : Bool

/-- `options_dictionary` -/
def optionsDictionary : List OptsDict := [
  ⟨"LB_LEWI".toList, "--lewi".toList, "no".toList, .bool, false⟩,
  ⟨"LB_DROM".toList, "--drom".toList, "no".toList, .bool, false⟩,
  ⟨"LB_TALP".toList, "--talp".toList, "none".toList, .tlpcom, false⟩,
  ⟨"LB_MNGO".toList, "--mngo".toList, "no".toList, .bool, false⟩,
  ⟨"LB_BARRIER".toList, "--barrier".toList, "yes".toList, .bool, false⟩,
  ⟨"LB_NULL".toList, "--ompt".toList, "yes".toList, .bool, false⟩,
  ⟨"LB_MODE".toList, "--mode".toList, "polling".toList, .mode, false⟩,
  ⟨"LB_NULL".toList, "--quiet".toList, "no".toList, .bool, false⟩,
  ⟨"LB_NULL".toList, "--silent".toList, "no".toList, .bool, false⟩,
  ⟨"LB_VERBOSE".toList, "--verbose".toList, "no".toList, .vb, false⟩,
  ⟨"LB_VERBOSE_FORMAT".toList, "--verbose-format".toList, "node:spid".toList, .vbfmt, false⟩,
  ⟨"LB_NULL".toList, "--instrument".toList, "all".toList, .inst, false⟩,
  ⟨"LB_NULL".toList, "--instrument-counters".toList, "no".toList, .bool, false⟩,
  ⟨"LB_NULL".toList, "--instrument-extrae-nthreads".toList, "0".toList, .int, false⟩,
  ⟨"LB_NULL".toList, "--lewi-keep-one-cpu".toList, "no".toList, .bool, false⟩,
  ⟨"LB_NULL".toList, "--lewi-respect-cpuset".toList, "yes".toList, .bool, false⟩,
  ⟨"LB_NULL".toList, "--lewi-respect-mask".toList, "yes".toList, .bool, true⟩,
  ⟨"LB_NULL".toList, "--lewi-mpi".toList, "no".toList, .negBool, true⟩,
  ⟨"LB_NULL".toList, "--lewi-mpi-calls".toList, "all".toList, .mpiset, false⟩,
  ⟨"LB_NULL".toList, "--lewi-barrier".toList, "yes".toList, .bool, false⟩,
  ⟨"LB_NULL".toList, "--lewi-barrier-select".toList, "".toList, .str, false⟩,
  ⟨"LB_NULL".toList, "--lewi-affinity".toList, "auto".toList, .lewiAff, false⟩,
  ⟨"LB_NULL".toList, "--lewi-ompt".toList, "borrow".toList, .omptopts, false⟩,
  ⟨"LB_NULL".toList, "--lewi-greedy".toList, "no".toList, .bool, false⟩,
  ⟨"LB_NULL".toList, "--lewi-warmup".toList, "no".toList, .bool, false⟩,
  ⟨"LB_NULL".toList, "--lewi-max-parallelism".toList, "0".toList, .int, false⟩,
  ⟨"LB_NULL".toList, "--lewi-color".toList, "0".toList, .int, false⟩,
  ⟨"LB_NULL".toList, "--talp-openmp".toList, "no".toList, .bool, false⟩,
  ⟨"LB_NULL".toList, "--talp-papi".toList, "no".toList, .bool, false⟩,
  ⟨"LB_TALP_SUMM".toList, "--talp-summary".toList, "pop-metrics".toList, .tlpsum, false⟩,
  ⟨"LB_NULL".toList, "--talp-output-file".toList, "".toList, .ptrPath, false⟩,
  ⟨"LB_NULL".toList, "--talp-partial-output".toList, "no".toList, .bool, false⟩,
  ⟨"LB_NULL".toList, "--talp-external-profiler".toList, "no".toList, .bool, false⟩,
  ⟨"LB_NULL".toList, "--talp-regions-per-proc".toList, "100".toList, .int, true⟩,
  ⟨"LB_NULL".toList, "--talp-region-select".toList, "".toList, .str, false⟩,
  ⟨"LB_NULL".toList, "--talp-gpu-backend".toList, "".toList, .str, false⟩,
  ⟨"LB_NULL".toList, "--talp-model".toList, "hybrid-v2".toList, .tlpmod, false⟩,
  ⟨"LB_NULL".toList, "--mngo-mode".toList, "regions".toList, .mngoMode, false⟩,
  ⟨"LB_NULL".toList, "--mngo-helper-thread-interval".toList, "30".toList, .int, false⟩,
  ⟨"LB_NULL".toList, "--mngo-lb-in-threshold".toList, "10".toList, .int, false⟩,
  ⟨"LB_NULL".toList, "--mngo-lb-out-threshold".toList, "5".toList, .int, false⟩,
  ⟨"LB_NULL".toList, "--barrier-id".toList, "0".toList, .int, false⟩,
  ⟨"LB_SHM_KEY".toList, "--shm-key".toList, "".toList, .str, false⟩,
  ⟨"LB_NULL".toList, "--shm-size-multiplier".toList, "1".toList, .int, false⟩,
  ⟨"LB_PREINIT_PID".toList, "--preinit-pid".toList, "0".toList, .int, false⟩,
  ⟨"LB_NULL".toList, "--ompt-thread-manager".toList, "omp5".toList, .omptm, false⟩,
  ⟨"LB_NULL".toList, "--plugin".toList, "".toList, .str, false⟩,
  ⟨"LB_DEBUG_OPTS".toList, "--debug-opts".toList, "".toList, .dbg, false⟩]

/-- The strings that `options_init` parses: the copy of its argument, and that of the environment variable. -/
structure OptionArgs where
  api : Option (List Char)
  env : Option (List Char)

variable (equivalent : OptionType → List Char → List Char → Bool) (getenv : List Char → Option (List Char))

/-- `values_are_equivalent`; `none`: the texts are read as pointers. -/
def valuesAreEquivalent (type : OptionType) (value1 value2 : List Char) : Option Bool :=
  if type = .ptrPath then none else some (equivalent type value1 value2)

/-- `arg_max_len` -/
def argMaxLen (entry : OptsDict) : ℕ := if entry.type = .ptrPath then pathMax - 1 else maxOptionLength - 1

/-- `parse_dlb_args` on one of the strings, if there is one: what is left of it, and the value. -/
def parseSource (entry : OptsDict) : Option (List Char) → Option (Option (List Char) × List Char)
  | none => some (none, [])
  | some dlbArgs =>
    (parseDlbArgs entry.argName (argMaxLen entry) dlbArgs).map fun s => (some (stringAt s.dlbArgs 0), s.argValue)

/-- One round of the loop of `options_init`: the strings, and what goes to `set_value` first. -/
def initOption (args : OptionArgs) (entry : OptsDict) : Option (OptionArgs × Option (List Char)) := do
  let (api, valueFromApi) ← parseSource entry args.api
  let (env, valueFromEnv) ← parseSource entry args.env
  let fromApi := if 0 < valueFromApi.length then some valueFromApi else none
  let fromArgs ←
    if 0 < valueFromEnv.length then
      match fromApi with
      | some rhs => (valuesAreEquivalent equivalent entry.type rhs valueFromEnv).map fun _ => some valueFromEnv
      | none => some (some valueFromEnv)
    else some fromApi
  let rhs := fromArgs.or (getenv entry.varName)
  some (⟨api, env⟩, if entry.unused then none else some (rhs.getD entry.defaultValue))

/-- The loop of `options_init`, with what goes to `set_value` first for each option that is used. -/
def initOptions (args : OptionArgs) : List OptsDict → Option (List (List Char × List Char))
  | [] => some []
  | entry :: entries => do
    let (args, value) ← initOption equivalent getenv args entry
    let values ← initOptions args entries
    some ((value.map fun value => (entry.argName, value)).toList ++ values)

def argsFromEnv : Option (List Char) := (getenv "DLB_ARGS".toList).or (getenv "LB_ARGS".toList)

/-- `options_init` -/
def optionsInit (dlbArgs : Option (List Char)) : Option (List (List Char × List Char)) :=
  initOptions equivalent getenv ⟨dlbArgs, argsFromEnv getenv⟩ optionsDictionary

/-! ## What the options are to be -/

/-- The value that a token gives to an option that it names. -/
def tokenValue (argName token : List Char) : Option (List Char) :=
  if token = argName then some ['y', 'e', 's']
  else if token = ['-', '-', 'n', 'o', '-'] ++ argName.drop 2 then some ['n', 'o']
  else if (argName ++ ['=']) <+: token then some (token.drop (argName.length + 1))
  else none

def tokensOf (args : Option (List Char)) : List (List Char) := tokens (args.getD [])

/-- The value of the last token that names the option and has one. -/
def lastValue (argName : List Char) (tokens : List (List Char)) : Option (List Char) :=
  ((tokens.filterMap (tokenValue argName)).filter (· ≠ [])).getLast?

/-- The value in `DLB_ARGS`, or else in the arguments of `DLB_Init`. -/
def givenValue (args : OptionArgs) (entry : OptsDict) : Option (List Char) :=
  (lastValue entry.argName (tokensOf args.env)).or (lastValue entry.argName (tokensOf args.api))

/-- The value that an option is to have: the given one, or else that of its variable, or else the default. -/
def resolvedValue (args : OptionArgs) (entry : OptsDict) : List Char :=
  ((givenValue args entry).or (getenv entry.varName)).getD entry.defaultValue

/-- The tokens of the arguments begin with `--`. -/
structure PlainArgs (dlbArgs : List Char) : Prop where
  noNul : nul ∉ dlbArgs
  dashes : ∀ token ∈ tokens dlbArgs, ['-', '-'] <+: token
  short : ∀ token ∈ tokens dlbArgs, token.length < maxOptionLength

/-- A value that consists of `=`. -/
def AllEquals (value : List Char) : Prop := ∀ c ∈ value, c = '='

instance (value : List Char) : Decidable (AllEquals value) := inferInstanceAs (Decidable (∀ c ∈ value, c = '='))

/-- The given value has no `=` in it; or it consists of `=`, as all the values that the strings give to the option, and its
variable has the same text. -/
def ValueKept (args : OptionArgs) (entry : OptsDict) : Prop :=
  ∀ value ∈ givenValue args entry, '=' ∉ value ∨
    AllEquals value ∧ getenv entry.varName = some value ∧
      ∀ token ∈ tokensOf args.env ++ tokensOf args.api, ∀ other ∈ tokenValue entry.argName token, AllEquals other

/-- A token gives the option a value that has something else than `=`. -/
def GivesValue (entry : OptsDict) (args : Option (List Char)) : Prop :=
  ∃ token ∈ tokensOf args, ∃ value ∈ tokenValue entry.argName token, ¬AllEquals value

structure WellNamed (entries : List OptsDict) : Prop where
  names : ∀ entry ∈ entries, ∃ name, entry.argName = '-' :: '-' :: name
  plain : ∀ entry ∈ entries, '=' ∉ entry.argName ∧ ' ' ∉ entry.argName ∧ '=' ∉ entry.defaultValue
  noNegation : ∀ entry ∈ entries, ¬['-', '-', 'n', 'o', '-'] <+: entry.argName
  distinct : (entries.map OptsDict.argName).Nodup

theorem optionsDictionary_wellNamed : WellNamed optionsDictionary := by
  -- the texts become lists of characters once, not at every look at one
  simp only [optionsDictionary, Lib.toList_literal]
  refine ⟨fun entry hentry => ⟨entry.argName.drop 2, ?_⟩, by decide, by decide, by decide⟩
  revert entry
  decide

variable {getenv} {args : OptionArgs} {entry : OptsDict} {argName token value : List Char}

/-! ## One token -/

theorem head?_words_eq_none_iff : (Lib.words '=' value).head? = none ↔ AllEquals value := by
  rw [head?_eq_none_iff, Lib.words_eq_nil_iff]
  rfl

theorem head?_words_of_plain (hne : value ≠ []) (hplain : '=' ∉ value) : (Lib.words '=' value).head? = some value := by
  rw [Lib.words_eq_singleton hne hplain, head?_cons]

/-- The value that `parse_dlb_args` finds: the first part of it between `=`. -/
def foundValue (argName token : List Char) : Option (List Char) :=
  (tokenValue argName token).bind fun value => (Lib.words '=' value).head?

theorem tokenValue_isSome : (tokenValue argName token).isSome ↔ Names argName token := by
  unfold tokenValue Names
  split_ifs <;> simp_all

theorem followed_of_dashes (hdashes : ['-', '-'] <+: token) : Followed token ∧ NotMistaken argName token := by
  obtain ⟨rest, rfl⟩ := hdashes
  exact ⟨⟨rfl, '-', mem_cons_self, by decide⟩, fun _ h => absurd (Option.some.inj h) (by decide)⟩

theorem parseToken_false (h : parseToken argName token = some (false, some value)) : False := by
  unfold parseToken at h
  by_cases hequals : '=' ∈ token
  · rw [if_pos hequals] at h
    cases hwords : Lib.words '=' token with
    | nil =>
      rw [hwords] at h
      cases h
    | cons argument values =>
      rw [hwords] at h
      dsimp only at h
      split at h <;> cases h
  · rw [if_neg hequals] at h
    split_ifs at h <;> cases h

theorem found_yes (hname : ArgName argName) :
    parseToken argName argName = some (true, foundValue argName argName) := by
  have hfound : foundValue argName argName = some ['y', 'e', 's'] := by
    rw [foundValue, tokenValue, if_pos rfl]
    rfl
  rw [hfound, parseToken, if_neg hname.noValue, if_pos rfl]

theorem found_no (hname : ArgName argName) (hne : ['-', '-', 'n', 'o', '-'] ++ argName.drop 2 ≠ argName) :
    parseToken argName (['-', '-', 'n', 'o', '-'] ++ argName.drop 2) =
      some (true, foundValue argName (['-', '-', 'n', 'o', '-'] ++ argName.drop 2)) := by
  have hno : '=' ∉ ['-', '-', 'n', 'o', '-'] ++ argName.drop 2 := fun hmem =>
    (mem_append.mp hmem).elim (by decide) fun hdrop => hname.noValue (mem_of_mem_drop hdrop)
  have hfound : foundValue argName (['-', '-', 'n', 'o', '-'] ++ argName.drop 2) = some ['n', 'o'] := by
    rw [foundValue, tokenValue, if_neg hne, if_pos rfl]
    rfl
  rw [hfound, parseToken, if_neg hno, if_neg hne, if_pos ⟨rfl, rfl⟩]

theorem found_value (hname : ArgName argName) (value : List Char) :
    parseToken argName (argName ++ '=' :: value) = some (true, foundValue argName (argName ++ '=' :: value)) := by
  have hmem : '=' ∈ argName ++ '=' :: value := mem_append_right _ mem_cons_self
  have hyes : argName ++ '=' :: value ≠ argName := fun h => hname.noValue (h ▸ hmem)
  have hno : argName ++ '=' :: value ≠ ['-', '-', 'n', 'o', '-'] ++ argName.drop 2 := fun h => by
    rw [h] at hmem
    exact (mem_append.mp hmem).elim (by decide) fun hdrop => hname.noValue (mem_of_mem_drop hdrop)
  have hprefix : (argName ++ ['=']) <+: argName ++ '=' :: value := ⟨value, by simp⟩
  have hdrop : (argName ++ '=' :: value).drop (argName.length + 1) = value := by simp
  rw [foundValue, tokenValue, if_neg hyes, if_neg hno, if_pos hprefix, hdrop, Option.bind_some, parseToken, if_pos hmem,
    words_argName hname]
  exact if_pos rfl

theorem parseToken_value (hname : ArgName argName) (hdashes : ['-', '-'] <+: token) :
    (parseToken argName token).bind (·.2) = foundValue argName token := by
  by_cases hnames : Names argName token
  · by_cases hyes : token = argName
    · rw [hyes, found_yes hname, Option.bind_some]
    · rcases hnames.resolve_left hyes with rfl | ⟨value, rfl⟩
      · rw [found_no hname hyes, Option.bind_some]
      · rw [append_assoc, singleton_append, found_value hname, Option.bind_some]
  · obtain ⟨hfollowed, hnot⟩ : Followed token ∧ NotMistaken argName token := followed_of_dashes hdashes
    obtain ⟨removeToken, value, hparse, hiff⟩ := parseToken_iff hname hfollowed.2
    have hfalse : removeToken = false :=
      Bool.not_eq_true _ ▸ mt hiff.mp (not_or.mpr ⟨hnames, fun h => hnot h.1 h.2⟩)
    have hnone : tokenValue argName token = none := Option.not_isSome_iff_eq_none.mp (mt tokenValue_isSome.mp hnames)
    rw [hparse, foundValue, hnone, hfalse]
    cases value with
    | none => rfl
    | some value => exact (parseToken_false (hfalse ▸ hparse)).elim

theorem of_foundValue (h : foundValue argName token = some value) : value ≠ [] ∧ '=' ∉ value := by
  obtain ⟨given, -, hhead⟩ := Option.bind_eq_some_iff.mp h
  obtain ⟨hne, hplain, -⟩ := Lib.of_mem_words (mem_of_mem_head? hhead)
  exact ⟨hne, hplain⟩

theorem foundValue_length (hname : ArgName argName) (hshort : token.length < maxOptionLength)
    (h : foundValue argName token = some value) : value.length ≤ maxOptionLength - 2 := by
  obtain ⟨given, hgiven, hhead⟩ := Option.bind_eq_some_iff.mp h
  refine (Lib.of_mem_words (mem_of_mem_head? hhead)).2.2.length_le.trans ?_
  unfold tokenValue at hgiven
  split_ifs at hgiven <;> obtain rfl := Option.some.inj hgiven
  · decide
  · decide
  · rw [length_drop]
    obtain ⟨name, rfl⟩ := hname.dashes
    omega

theorem Names.unique {other : List Char} (hname : ArgName argName) (hother : ArgName other)
    (hno : ¬['-', '-', 'n', 'o', '-'] <+: argName) (hno' : ¬['-', '-', 'n', 'o', '-'] <+: other)
    (h : Names argName token) (h' : Names other token) : argName = other := by
  have hvalue : ∀ {a b : List Char}, ArgName a → ArgName b → (a ++ ['=']) <+: token →
      token = b ∨ token = ['-', '-', 'n', 'o', '-'] ++ b.drop 2 → False := by
    intro a b ha hb hstart hcase
    have hmem : '=' ∈ token := hstart.subset (mem_append_right _ mem_cons_self)
    rcases hcase with rfl | rfl
    · exact hb.noValue hmem
    · exact (mem_append.mp hmem).elim (by decide) fun hdrop => hb.noValue (mem_of_mem_drop hdrop)
  rcases h with h | h | h <;> rcases h' with h' | h' | h'
  · exact h.symm.trans h'
  · exact absurd ⟨_, h'.symm.trans h⟩ hno
  · exact (hvalue hother hname h' (.inl h)).elim
  · exact absurd ⟨_, h.symm.trans h'⟩ hno'
  · obtain ⟨name, rfl⟩ := hname.dashes
    obtain ⟨name', rfl⟩ := hother.dashes
    have heq : name = name' := append_cancel_left (h.symm.trans h')
    rw [heq]
  · exact (hvalue hother hname h' (.inr h)).elim
  · exact (hvalue hname hother h (.inl h')).elim
  · exact (hvalue hname hother h (.inr h')).elim
  · obtain ⟨rest, rfl⟩ := h
    obtain ⟨rest', hrest'⟩ := h'
    have hwords := congrArg (Lib.words '=') hrest'
    rw [append_assoc, singleton_append, words_argName hother, append_assoc, singleton_append,
      words_argName hname] at hwords
    exact (cons.inj hwords).1.symm

/-! ## One of the strings -/

/-- What `parse_dlb_args` finds last. -/
def lastFound (argName : List Char) (tokens : List (List Char)) : Option (List Char) :=
  (tokens.filterMap (foundValue argName)).getLast?

theorem foldl_getD {α β : Type*} (f : α → Option β) (l : List α) (b : β) :
    l.foldl (fun b a => (f a).getD b) b = (l.filterMap f).getLast?.getD b := by
  induction l generalizing b with
  | nil => rfl
  | cons a l ih =>
    rw [foldl_cons, ih]
    cases hfa : f a with
    | none => rw [filterMap_cons_none hfa, Option.getD_none]
    | some b' => rw [filterMap_cons_some hfa, Option.getD_some, getLast?_cons, Option.getD_some]

theorem OptsDict.argMaxLen_le (entry : OptsDict) : maxOptionLength - 2 ≤ argMaxLen entry - 1 := by
  unfold argMaxLen
  split <;> decide

theorem foldl_valueAfter (hname : ArgName entry.argName) {dlbArgs : List Char} (hplain : PlainArgs dlbArgs) :
    (tokens dlbArgs).foldl (valueAfter entry.argName (argMaxLen entry)) [] =
      (lastFound entry.argName (tokens dlbArgs)).getD [] := by
  rw [lastFound, ← foldl_getD]
  refine foldl_ext _ _ _ fun value token htoken => ?_
  rw [valueAfter, parseToken_value hname (hplain.dashes token htoken)]
  cases hfound : foundValue entry.argName token with
  | none => rfl
  | some found =>
    have hfits := foundValue_length hname (hplain.short token htoken) hfound
    rw [Option.map_some, take_of_length_le (hfits.trans entry.argMaxLen_le)]

theorem parseSource_spec (hname : ArgName entry.argName) {source : Option (List Char)}
    (hplain : ∀ dlbArgs ∈ source, PlainArgs dlbArgs) :
    ∃ left, parseSource entry source = some (left, (lastFound entry.argName (tokensOf source)).getD []) ∧
      (∀ dlbArgs ∈ left, PlainArgs dlbArgs) ∧ tokensOf left = (tokensOf source).filter (¬Names entry.argName ·) := by
  cases source with
  | none => exact ⟨none, rfl, nofun, rfl⟩
  | some dlbArgs =>
    have hargs := hplain dlbArgs rfl
    obtain ⟨s, hs, hnul, htokens, hvalue⟩ := parseDlbArgs_spec hname (argMaxLen entry) hargs.noNul fun token htoken =>
      followed_of_dashes (hargs.dashes token htoken)
    have hleft : PlainArgs (stringAt s.dlbArgs 0) :=
      ⟨hnul, fun token htoken => hargs.dashes token (mem_filter.mp (htokens ▸ htoken)).1,
        fun token htoken => hargs.short token (mem_filter.mp (htokens ▸ htoken)).1⟩
    refine ⟨some (stringAt s.dlbArgs 0), ?_, fun _ h => Option.some.inj h ▸ hleft, htokens⟩
    rw [parseSource, hs, Option.map_some, hvalue, foldl_valueAfter hname hargs]
    rfl

/-! ## All the options -/

/-- The strings that are there have tokens that begin with `--`. -/
structure OptionArgs.Plain (args : OptionArgs) : Prop where
  api : ∀ dlbArgs ∈ args.api, PlainArgs dlbArgs
  env : ∀ dlbArgs ∈ args.env, PlainArgs dlbArgs

/-- The value that the code finds in `DLB_ARGS`, or else in the arguments of `DLB_Init`. -/
def foundGiven (args : OptionArgs) (entry : OptsDict) : Option (List Char) :=
  (lastFound entry.argName (tokensOf args.env)).or (lastFound entry.argName (tokensOf args.api))

/-- What the code passes to `set_value`. -/
def foundResolved (getenv : List Char → Option (List Char)) (args : OptionArgs) (entry : OptsDict) : List Char :=
  ((foundGiven args entry).or (getenv entry.varName)).getD entry.defaultValue

def PathTwice (args : OptionArgs) (entry : OptsDict) : Prop :=
  entry.type = .ptrPath ∧ (lastFound entry.argName (tokensOf args.env)).isSome = true ∧
    (lastFound entry.argName (tokensOf args.api)).isSome = true

instance (args : OptionArgs) (entry : OptsDict) : Decidable (PathTwice args entry) :=
  inferInstanceAs (Decidable (_ ∧ _ ∧ _))

/-- What remains of the rounds of the other options. -/
def Leaves (args left : OptionArgs) (entry : OptsDict) : Prop :=
  left.Plain ∧ tokensOf left.api = (tokensOf args.api).filter (¬Names entry.argName ·) ∧
    tokensOf left.env = (tokensOf args.env).filter (¬Names entry.argName ·)

theorem of_lastFound {tokens : List (List Char)} (h : lastFound argName tokens = some value) : value ≠ [] ∧ '=' ∉ value := by
  obtain ⟨token, -, hfound⟩ := mem_filterMap.mp (mem_of_getLast? h)
  exact of_foundValue hfound

theorem pointer_lastFound (argName : List Char) (tokens : List (List Char)) :
    (if 0 < ((lastFound argName tokens).getD []).length then some ((lastFound argName tokens).getD []) else none) =
      lastFound argName tokens := by
  cases hfound : lastFound argName tokens with
  | none => rfl
  | some value => exact if_pos (length_pos_iff.mpr (of_lastFound hfound).1)

theorem initOption_spec (getenv : List Char → Option (List Char)) (hname : ArgName entry.argName) (hargs : args.Plain) :
    (PathTwice args entry → initOption equivalent getenv args entry = none) ∧
      (¬PathTwice args entry → ∃ left, initOption equivalent getenv args entry =
        some (left, if entry.unused then none else some (foundResolved getenv args entry)) ∧ Leaves args left entry) := by
  obtain ⟨api, hapi, hplainApi, htokensApi⟩ := parseSource_spec hname hargs.api
  obtain ⟨env, henv, hplainEnv, htokensEnv⟩ := parseSource_spec hname hargs.env
  have hleaves : Leaves args ⟨api, env⟩ entry := ⟨⟨hplainApi, hplainEnv⟩, htokensApi, htokensEnv⟩
  unfold initOption PathTwice foundResolved foundGiven
  rw [hapi, henv]
  simp only [Option.bind_eq_bind, Option.bind_some, pointer_lastFound]
  cases hfromEnv : lastFound entry.argName (tokensOf args.env) with
  | none => exact ⟨fun h => absurd h.2.1 Bool.false_ne_true, fun _ => ⟨_, rfl, hleaves⟩⟩
  | some valueFromEnv =>
    rw [Option.getD_some, if_pos (length_pos_iff.mpr (of_lastFound hfromEnv).1)]
    cases hfromApi : lastFound entry.argName (tokensOf args.api) with
    | none => exact ⟨fun h => absurd h.2.2 Bool.false_ne_true, fun _ => ⟨_, rfl, hleaves⟩⟩
    | some valueFromApi =>
      unfold valuesAreEquivalent
      dsimp only
      by_cases hpath : entry.type = .ptrPath
      · rw [if_pos hpath]
        exact ⟨fun _ => rfl, fun h => absurd ⟨hpath, rfl, rfl⟩ h⟩
      · rw [if_neg hpath]
        exact ⟨fun h => absurd h.1 hpath, fun _ => ⟨_, rfl, hleaves⟩⟩

theorem lastFound_filter {other : List Char} {tokens : List (List Char)}
    (hother : ∀ token, Names other token → ¬Names argName token) :
    lastFound argName (tokens.filter (¬Names other ·)) = lastFound argName tokens := by
  unfold lastFound
  rw [filterMap_filter]
  refine congrArg getLast? (filterMap_congr fun token _ => ?_)
  by_cases hnames : Names other token
  · have hnone : tokenValue argName token = none :=
      Option.not_isSome_iff_eq_none.mp (mt tokenValue_isSome.mp (hother token hnames))
    rw [if_neg (by simpa using hnames), foundValue, hnone]
    rfl
  · rw [if_pos (by simpa using hnames)]

theorem WellNamed.argName_of_mem {entries : List OptsDict} (h : WellNamed entries) (hentry : entry ∈ entries) :
    ArgName entry.argName :=
  ⟨h.names entry hentry, (h.plain entry hentry).1, (h.plain entry hentry).2.1⟩

theorem WellNamed.tail {entries : List OptsDict} (h : WellNamed (entry :: entries)) : WellNamed entries :=
  ⟨fun e he => h.names e (mem_cons_of_mem _ he), fun e he => h.plain e (mem_cons_of_mem _ he),
    fun e he => h.noNegation e (mem_cons_of_mem _ he), (nodup_cons.mp h.distinct).2⟩

theorem Leaves.lastFound {entries : List OptsDict} {left : OptionArgs} {other : OptsDict} (h : Leaves args left entry)
    (hnamed : WellNamed (entry :: entries)) (hother : other ∈ entries) :
    Dlb.lastFound other.argName (tokensOf left.api) = Dlb.lastFound other.argName (tokensOf args.api) ∧
      Dlb.lastFound other.argName (tokensOf left.env) = Dlb.lastFound other.argName (tokensOf args.env) := by
  have hmem := mem_cons_of_mem entry hother
  have hne : entry.argName ≠ other.argName := fun heq =>
    (nodup_cons.mp hnamed.distinct).1 (heq ▸ mem_map_of_mem hother)
  have hunique : ∀ token, Names entry.argName token → ¬Names other.argName token := fun token hentry' hother' =>
    hne (hentry'.unique (hnamed.argName_of_mem mem_cons_self) (hnamed.argName_of_mem hmem)
      (hnamed.noNegation entry mem_cons_self) (hnamed.noNegation other hmem) hother')
  rw [h.2.1, h.2.2, lastFound_filter hunique, lastFound_filter hunique]
  exact ⟨rfl, rfl⟩

theorem initOptions_eq {entries : List OptsDict} (hnamed : WellNamed entries) (hargs : args.Plain) :
    initOptions equivalent getenv args entries =
      if ∃ entry ∈ entries, PathTwice args entry then none
      else some ((entries.filter (!·.unused)).map fun entry => (entry.argName, foundResolved getenv args entry)) := by
  induction entries generalizing args with
  | nil => rw [if_neg nofun]; rfl
  | cons entry entries ih =>
    obtain ⟨htwice, honce⟩ := initOption_spec equivalent getenv (hnamed.argName_of_mem mem_cons_self) hargs
    rw [initOptions]
    by_cases hpath : PathTwice args entry
    · rw [htwice hpath, if_pos ⟨entry, mem_cons_self, hpath⟩]
      rfl
    · obtain ⟨left, hround, hleaves⟩ := honce hpath
      have hsame : ∀ other ∈ entries, (PathTwice left other ↔ PathTwice args other) ∧
          foundResolved getenv left other = foundResolved getenv args other := by
        intro other hother
        obtain ⟨hapi, henv⟩ := hleaves.lastFound hnamed hother
        unfold PathTwice foundResolved foundGiven
        rw [hapi, henv]
        exact ⟨Iff.rfl, rfl⟩
      have hiff : (∃ other ∈ entry :: entries, PathTwice args other) ↔ ∃ other ∈ entries, PathTwice left other := by
        rw [exists_mem_cons_iff, or_iff_right hpath]
        exact exists_congr fun other => and_congr_right fun hother => (hsame other hother).1.symm
      have hmap : ((entries.filter (!·.unused)).map fun other => (other.argName, foundResolved getenv left other)) =
          (entries.filter (!·.unused)).map fun other => (other.argName, foundResolved getenv args other) :=
        map_congr_left fun other hother => by rw [(hsame other (mem_filter.mp hother).1).2]
      rw [hround, Option.bind_eq_bind, Option.bind_some]
      dsimp only
      rw [ih hnamed.tail hleaves.1, hmap]
      by_cases htail : ∃ other ∈ entries, PathTwice left other
      · rw [if_pos htail, if_pos (hiff.mpr htail)]
        rfl
      · rw [if_neg htail, if_neg (mt hiff.mp htail)]
        cases hunused : entry.unused with
        | true => rw [filter_cons_of_neg (by simp [hunused])]; rfl
        | false => rw [filter_cons_of_pos (by simp [hunused])]; rfl

/-! ## The values -/

theorem lastFound_eq_none_iff {tokens : List (List Char)} :
    lastFound argName tokens = none ↔ ∀ token ∈ tokens, ∀ value ∈ tokenValue argName token, AllEquals value := by
  rw [lastFound, getLast?_eq_none_iff, filterMap_eq_nil_iff]
  refine forall₂_congr fun token _ => ?_
  unfold foundValue
  cases tokenValue argName token with
  | none => exact iff_of_true rfl nofun
  | some value =>
    rw [Option.bind_some, head?_words_eq_none_iff]
    exact ⟨fun h _ heq => Option.some.inj heq ▸ h, fun h => h value rfl⟩

theorem lastFound_isSome_iff (entry : OptsDict) (source : Option (List Char)) :
    (lastFound entry.argName (tokensOf source)).isSome = true ↔ GivesValue entry source := by
  rw [← not_iff_not, Option.not_isSome_iff_eq_none, lastFound_eq_none_iff]
  unfold GivesValue
  simp only [not_exists, not_and, not_not]

theorem lastFound_append (argName : List Char) (front tokens : List (List Char)) :
    lastFound argName (front ++ tokens) = (lastFound argName tokens).or (lastFound argName front) := by
  rw [lastFound, filterMap_append, getLast?_append]
  rfl

theorem lastValue_append (argName : List Char) (front tokens : List (List Char)) :
    lastValue argName (front ++ tokens) = (lastValue argName tokens).or (lastValue argName front) := by
  rw [lastValue, filterMap_append, filter_append, getLast?_append]
  rfl

theorem lastValue_eq_none {tokens : List (List Char)} (h : lastValue argName tokens = none) :
    lastFound argName tokens = none := by
  refine lastFound_eq_none_iff.mpr fun token htoken value hvalue => ?_
  have hnil := filter_eq_nil_iff.mp (getLast?_eq_none_iff.mp h) value
    (mem_filterMap.mpr ⟨token, htoken, hvalue⟩)
  have hempty : value = [] := by simpa using hnil
  rw [hempty]
  exact nofun

theorem lastFound_of_lastValue {tokens : List (List Char)} (h : lastValue argName tokens = some value)
    (hequals : ¬AllEquals value) : lastFound argName tokens = (Lib.words '=' value).head? := by
  induction tokens using reverseRecOn with
  | nil => cases h
  | append_singleton tokens token ih =>
    rw [lastValue_append] at h
    rw [lastFound_append]
    have hlast : lastFound argName [token] = foundValue argName token := by
      unfold lastFound
      cases hfound : foundValue argName token with
      | none => rw [filterMap_cons_none hfound]; rfl
      | some _ => rw [filterMap_cons_some hfound]; rfl
    cases hfirst : lastValue argName [token] with
    | none =>
      rw [hfirst, Option.none_or] at h
      rw [lastValue_eq_none hfirst, Option.none_or, ih h]
    | some given =>
      rw [hfirst, Option.some_or] at h
      obtain rfl := Option.some.inj h
      have hmem := mem_filterMap.mp (mem_filter.mp (mem_of_getLast? hfirst)).1
      obtain ⟨token', htoken', hgiven⟩ := hmem
      obtain rfl := mem_singleton.mp htoken'
      obtain ⟨word, hword⟩ := Option.ne_none_iff_exists'.mp (mt head?_words_eq_none_iff.mp hequals)
      rw [hlast, foundValue, hgiven, Option.bind_some, hword, Option.some_or]

theorem givenValue_eq (args : OptionArgs) (entry : OptsDict) :
    givenValue args entry = lastValue entry.argName (tokensOf args.api ++ tokensOf args.env) :=
  (lastValue_append _ _ _).symm

theorem foundGiven_eq (args : OptionArgs) (entry : OptsDict) :
    foundGiven args entry = lastFound entry.argName (tokensOf args.api ++ tokensOf args.env) :=
  (lastFound_append _ _ _).symm

theorem head?_words_eq_some_iff (hne : value ≠ []) : (Lib.words '=' value).head? = some value ↔ '=' ∉ value :=
  ⟨fun h => (Lib.of_mem_words (mem_of_mem_head? h)).2.1, head?_words_of_plain hne⟩

theorem ne_nil_of_lastValue {tokens : List (List Char)} (h : lastValue argName tokens = some value) : value ≠ [] := by
  simpa using (mem_filter.mp (mem_of_getLast? h)).2

theorem foundResolved_eq_iff (hdefault : '=' ∉ entry.defaultValue) :
    foundResolved getenv args entry = resolvedValue getenv args entry ↔ ValueKept getenv args entry := by
  have hswap : (∀ token ∈ tokensOf args.env ++ tokensOf args.api, ∀ other ∈ tokenValue entry.argName token, AllEquals other) ↔
      foundGiven args entry = none := by
    rw [foundGiven_eq, lastFound_eq_none_iff]
    refine forall_congr' fun token => imp_congr_left ?_
    rw [mem_append, mem_append, or_comm]
  unfold foundResolved resolvedValue ValueKept
  rw [hswap]
  cases hgiven : givenValue args entry with
  | none =>
    rw [givenValue_eq] at hgiven
    rw [foundGiven_eq, lastValue_eq_none hgiven]
    exact iff_of_true rfl nofun
  | some value =>
    have hkept : (∀ value' ∈ some value, '=' ∉ value' ∨
        AllEquals value' ∧ getenv entry.varName = some value' ∧ foundGiven args entry = none) ↔
          '=' ∉ value ∨ AllEquals value ∧ getenv entry.varName = some value ∧ foundGiven args entry = none :=
      ⟨fun h => h value rfl, fun h _ heq => Option.some.inj heq ▸ h⟩
    rw [givenValue_eq] at hgiven
    have hne := ne_nil_of_lastValue hgiven
    rw [hkept, Option.some_or, Option.getD_some]
    by_cases hequals : AllEquals value
    · obtain ⟨c, rest, rfl⟩ := exists_cons_of_ne_nil hne
      have hmem : '=' ∈ c :: rest := mem_cons.mpr (.inl (hequals c mem_cons_self).symm)
      rw [or_iff_right (not_not.mpr hmem), and_iff_right hequals]
      cases hfound : foundGiven args entry with
      | some found =>
        rw [foundGiven_eq] at hfound
        refine iff_of_false (fun h => (of_lastFound hfound).2 ?_) fun h => Option.some_ne_none _ h.2
        have heq : found = c :: rest := h
        exact heq.symm ▸ hmem
      | none =>
        rw [Option.none_or, and_iff_left rfl]
        cases hvar : getenv entry.varName with
        | some var => exact Option.some_inj.symm
        | none =>
          refine iff_of_false (fun h => hdefault ?_) nofun
          have heq : entry.defaultValue = c :: rest := h
          exact heq.symm ▸ hmem
    · obtain ⟨word, hword⟩ := Option.ne_none_iff_exists'.mp (mt head?_words_eq_none_iff.mp hequals)
      rw [foundGiven_eq, lastFound_of_lastValue hgiven hequals, or_iff_left fun h => hequals h.1,
        ← head?_words_eq_some_iff hne, hword, Option.some_or, Option.getD_some, Option.some_inj]

/-! ## The dictionary -/

theorem optionsInit_eq {dlbArgs : Option (List Char)} (hargs : (OptionArgs.mk dlbArgs (argsFromEnv getenv)).Plain) :
    optionsInit equivalent getenv dlbArgs =
      if ∃ entry ∈ optionsDictionary, PathTwice ⟨dlbArgs, argsFromEnv getenv⟩ entry then none
      else some ((optionsDictionary.filter (!·.unused)).map fun entry =>
        (entry.argName, foundResolved getenv ⟨dlbArgs, argsFromEnv getenv⟩ entry)) :=
  initOptions_eq equivalent optionsDictionary_wellNamed hargs

/-- **Each option gets its value** exactly if the values that count are kept by the second tokenizer, and if no path is given
both in `DLB_ARGS` and in the arguments of `DLB_Init`. -/
theorem option_resolution_iff (getenv : List Char → Option (List Char)) (dlbArgs : Option (List Char))
    (hapi : ∀ text ∈ dlbArgs, PlainArgs text) (henv : ∀ text ∈ argsFromEnv getenv, PlainArgs text) :
    optionsInit equivalent getenv dlbArgs =
        some ((optionsDictionary.filter (!·.unused)).map fun entry =>
          (entry.argName, resolvedValue getenv ⟨dlbArgs, argsFromEnv getenv⟩ entry)) ↔
      (∀ entry ∈ optionsDictionary, entry.unused = false → ValueKept getenv ⟨dlbArgs, argsFromEnv getenv⟩ entry) ∧
        ∀ entry ∈ optionsDictionary, entry.type = .ptrPath →
          ¬(GivesValue entry (argsFromEnv getenv) ∧ GivesValue entry dlbArgs) := by
  have hpath : (¬∃ entry ∈ optionsDictionary, PathTwice ⟨dlbArgs, argsFromEnv getenv⟩ entry) ↔
      ∀ entry ∈ optionsDictionary, entry.type = .ptrPath →
        ¬(GivesValue entry (argsFromEnv getenv) ∧ GivesValue entry dlbArgs) := by
    simp only [not_exists, not_and, PathTwice, lastFound_isSome_iff]
  have hvalues : ((optionsDictionary.filter (!·.unused)).map fun entry =>
        (entry.argName, foundResolved getenv ⟨dlbArgs, argsFromEnv getenv⟩ entry)) =
      ((optionsDictionary.filter (!·.unused)).map fun entry =>
        (entry.argName, resolvedValue getenv ⟨dlbArgs, argsFromEnv getenv⟩ entry)) ↔
      ∀ entry ∈ optionsDictionary, entry.unused = false → ValueKept getenv ⟨dlbArgs, argsFromEnv getenv⟩ entry := by
    rw [map_inj_left]
    constructor
    · intro h entry hentry hused
      have heq := h entry (mem_filter.mpr ⟨hentry, by rw [hused]; rfl⟩)
      exact (foundResolved_eq_iff (optionsDictionary_wellNamed.plain entry hentry).2.2).mp (Prod.mk.inj heq).2
    · intro h entry hentry
      obtain ⟨hmem, hused⟩ := mem_filter.mp hentry
      rw [(foundResolved_eq_iff (optionsDictionary_wellNamed.plain entry hmem).2.2).mpr (h entry hmem (by simpa using hused))]
  rw [optionsInit_eq equivalent ⟨hapi, henv⟩, ← hpath, ← hvalues]
  by_cases htwice : ∃ entry ∈ optionsDictionary, PathTwice ⟨dlbArgs, argsFromEnv getenv⟩ entry
  · rw [if_pos htwice]
    exact iff_of_false nofun fun h => h.2 htwice
  · rw [if_neg htwice, Option.some_inj]
    exact (and_iff_left htwice).symm

/-- The variables of an environment that has one. -/
def oneVariable (name value : List Char) (var : List Char) : Option (List Char) := if var = name then some value else none

/-- Options in both strings, in any order. -/
theorem option_resolution_both :
    let getenv := oneVariable "DLB_ARGS".toList "--shm-key=y --lewi".toList
    let dlbArgs := some "--no-drom  --shm-key=x --talp-output-file=f".toList
    optionsInit (fun _ _ _ => true) getenv dlbArgs =
      some ((optionsDictionary.filter (!·.unused)).map fun entry =>
        (entry.argName, resolvedValue getenv ⟨dlbArgs, argsFromEnv getenv⟩ entry)) := by
  refine (option_resolution_iff _ _ _ ?_ ?_).mpr ⟨?_, ?_⟩
  · rintro _ ⟨⟩
    exact ⟨by decide, by decide, by decide⟩
  · rintro _ ⟨⟩
    exact ⟨by decide, by decide, by decide⟩
  · simp only [ValueKept, optionsDictionary, Lib.toList_literal]
    decide
  · simp only [GivesValue, optionsDictionary, Lib.toList_literal]
    decide

/-- The key `a=b` is cut at its `=`. -/
theorem shmKey_with_equals :
    optionsInit (fun _ _ _ => true) (fun _ => none) (some "--shm-key=a=b".toList) ≠
      some ((optionsDictionary.filter (!·.unused)).map fun entry =>
        (entry.argName, resolvedValue (fun _ => none) ⟨some "--shm-key=a=b".toList, none⟩ entry)) := by
  simp only [optionsInit, optionsDictionary, Lib.toList_literal]
  decide

end Dlb

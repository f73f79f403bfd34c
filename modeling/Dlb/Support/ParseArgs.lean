import Dlb.Lib.Words

/-!
# Taking an option out of the arguments

`parse_dlb_args` of `options.c` looks for an option in a string of arguments and removes what names it. The tokens are those
of a copy, cut at blanks; where they are in the string itself is followed by skipping white space and adding lengths.

* `parseToken_iff`: which tokens are taken for the option, and which make the function compare a null pointer.
-/

namespace Dlb

open List

/-- `isspace` in the C locale. -/
def isSpace (c : Char) : Bool := c = ' ' || ('\t' ≤ c && c ≤ '\r')

def nul : Char := '\x00'

/-- The string that starts at a place of the memory. -/
def stringAt (mem : List Char) (place : ℕ) : List Char := (mem.drop place).takeWhile (· ≠ nul)

/-- The tokens at which `strtok_r` cuts a string. -/
def tokens (text : List Char) : List (List Char) := Lib.words ' ' text

/-- The local variables of `parse_dlb_args`: the memory of `dlb_args`, where `progress` points to, and `arg_value`. -/
structure ParseArgs where
  dlbArgs : List Char
  progress : ℕ
  argValue : List Char

section Model

variable (argName : List Char) (argMaxLen : ℕ)

/-- What `parse_dlb_args` does with a token: whether it is to be removed, and the value that it has. `none`: a null pointer is
compared. -/
def parseToken (token : List Char) : Option (Bool × Option (List Char)) :=
  if '=' ∈ token then
    -- option is of the form --argument=value
    match Lib.words '=' token with
    | [] => none
    | argument :: values => if argument = argName then some (true, values.head?) else some (false, none)
  -- option is of the form --argument/--no-argument
  else if token = argName then some (true, some ['y', 'e', 's'])
  else if token.take 5 = ['-', '-', 'n', 'o', '-'] ∧ token.drop 5 = argName.drop 2 then some (true, some ['n', 'o'])
  else some (false, none)

/-- `while(isspace((unsigned char)*progress)) progress++`; `none`: it reads behind the memory. -/
def skipSpaces (mem : List Char) (progress : ℕ) : Option ℕ :=
  let place := progress + ((mem.drop progress).takeWhile isSpace).length
  if place < mem.length then some place else none

/-- `memmove` of the string at `src` to `dest`; `none`: there is no string at `src`. -/
def moveString (mem : List Char) (dest src : ℕ) : Option (List Char) :=
  if src + (stringAt mem src).length < mem.length then
    some (mem.take dest ++ (stringAt mem src ++ nul :: mem.drop (dest + (stringAt mem src).length + 1)))
  else none

/-- One round of the loop of `parse_dlb_args`. -/
def parseStep (s : ParseArgs) (token : List Char) : Option ParseArgs := do
  let progress ← skipSpaces s.dlbArgs s.progress
  let (removeToken, value) ← parseToken argName token
  let argValue := (value.map (take (argMaxLen - 1))).getD s.argValue
  if removeToken then
    let dlbArgs ← moveString s.dlbArgs progress (progress + token.length)
    some ⟨dlbArgs, progress, argValue⟩
  else some ⟨s.dlbArgs, progress + token.length, argValue⟩

/-- The loop, over the rests of the copy that start with a token. -/
def parseLoop (s : ParseArgs) : List (List Char) → Option ParseArgs
  | [] => some s
  | start :: starts => (parseStep argName argMaxLen s (Lib.firstWord ' ' start)).bind fun s => parseLoop s starts

/-- `parse_dlb_args` -/
def parseDlbArgs (dlbArgs : List Char) : Option ParseArgs :=
  parseLoop argName argMaxLen ⟨dlbArgs ++ [nul], 0, []⟩ (Lib.wordStarts ' ' false dlbArgs)

end Model

/-! ## What the function is for -/

/-- The token names an option: it is `--name`, `--no-name`, or `--name=` and a value. -/
def Names (argName token : List Char) : Prop :=
  token = argName ∨ token = ['-', '-', 'n', 'o', '-'] ++ argName.drop 2 ∨ (argName ++ ['=']) <+: token

instance (argName token : List Char) : Decidable (Names argName token) := inferInstanceAs (Decidable (_ ∨ _ ∨ _))

/-- The name of an option: `--name`, in one token and without a value. -/
structure ArgName (argName : List Char) : Prop where
  dashes : ∃ name, argName = '-' :: '-' :: name
  noValue : '=' ∉ argName
  noBlank : ' ' ∉ argName

/-- `progress` points to the place of `start`, where the string has what the copy has. -/
def At (start mem : List Char) (progress : ℕ) : Prop :=
  ∃ front, stringAt mem 0 = front ++ start ∧ progress = front.length

/-- In each round `progress` points to the token, and no null pointer is compared. -/
def Aligned (argName : List Char) (argMaxLen : ℕ) (s : ParseArgs) : List (List Char) → Prop
  | [] => True
  | start :: starts =>
    (∃ progress, skipSpaces s.dlbArgs s.progress = some progress ∧ At start s.dlbArgs progress) ∧
      ∃ s', parseStep argName argMaxLen s (Lib.firstWord ' ' start) = some s' ∧ Aligned argName argMaxLen s' starts

/-- The loop follows the tokens, and afterwards the string has those that do not name the option. -/
def RemovesOption (argName : List Char) (argMaxLen : ℕ) (dlbArgs : List Char) : Prop :=
  Aligned argName argMaxLen ⟨dlbArgs ++ [nul], 0, []⟩ (Lib.wordStarts ' ' false dlbArgs) ∧
    ∃ s, parseDlbArgs argName argMaxLen dlbArgs = some s ∧
      tokens (stringAt s.dlbArgs 0) = (tokens dlbArgs).filter (¬Names argName ·)

/-- A token that the loop follows: it does not start with white space, and is not made of `=`. -/
def Followed (token : List Char) : Prop := token.head?.all (! isSpace ·) ∧ ∃ c ∈ token, c ≠ '='

instance (token : List Char) : Decidable (Followed token) :=
  have : Decidable (∃ c ∈ token, c ≠ '=') := decidableBEx (· ≠ '=') token
  inferInstanceAs (Decidable (_ ∧ _))

/-- A token that is not taken for the option by mistake: `=` is not in front of the name. -/
def NotMistaken (argName token : List Char) : Prop := (Lib.words '=' token).head? = some argName → token.head? ≠ some '='

variable {argName token : List Char} {argMaxLen : ℕ}

/-! ## One token -/

theorem parseToken_eq_none (htoken : token ≠ []) : parseToken argName token = none ↔ ∀ c ∈ token, c = '=' := by
  unfold parseToken
  constructor
  · intro h
    split_ifs at h with hequals
    cases hwords : Lib.words '=' token with
    | nil => exact Lib.words_eq_nil_iff.mp hwords
    | cons argument values =>
      rw [hwords] at h
      dsimp only at h
      split at h <;> cases h
  · intro h
    obtain ⟨c, token, rfl⟩ := exists_cons_of_ne_nil htoken
    rw [if_pos (mem_cons.mpr (.inl (h c mem_cons_self).symm)), Lib.words_eq_nil_iff.mpr h]

theorem words_argName (hname : ArgName argName) (value : List Char) :
    Lib.words '=' (argName ++ '=' :: value) = argName :: Lib.words '=' value := by
  obtain ⟨name, rfl⟩ := hname.dashes
  rw [Lib.words_append_cons, Lib.words_eq_singleton (cons_ne_nil _ _) hname.noValue]
  rfl

theorem parseToken_iff (hname : ArgName argName) (htoken : ∃ c ∈ token, c ≠ '=') :
    ∃ removeToken value, parseToken argName token = some (removeToken, value) ∧
      (removeToken = true ↔ Names argName token ∨ (Lib.words '=' token).head? = some argName ∧ token.head? = some '=') := by
  by_cases hequals : '=' ∈ token
  · have hnot : ¬(token = argName ∨ token = ['-', '-', 'n', 'o', '-'] ++ argName.drop 2) := by
      rintro (rfl | rfl)
      · exact hname.noValue hequals
      · rcases mem_append.mp hequals with hmem | hmem
        · exact absurd hmem (by decide)
        · exact hname.noValue (mem_of_mem_drop hmem)
    have hremoved : (Lib.words '=' token).head? = some argName ↔
        Names argName token ∨ (Lib.words '=' token).head? = some argName ∧ token.head? = some '=' := by
      constructor
      · intro hhead
        by_cases hfirst : token.head? = some '='
        · exact .inr ⟨hhead, hfirst⟩
        refine .inl (.inr (.inr ?_))
        induction token using Lib.words_induction (z := '=') with
        | blank blanks hblanks =>
          obtain ⟨c, hc, hne⟩ := htoken
          exact absurd (hblanks c hc) hne
        | step blanks word rest hblanks hne hword hrest =>
          rw [Lib.words_word hblanks hne hword hrest] at hhead
          obtain rfl := Option.some.inj hhead
          cases blanks with
          | cons c blanks => exact absurd (congrArg some (hblanks c mem_cons_self)) hfirst
          | nil =>
            rcases hrest with rfl | ⟨value, rfl⟩
            · rw [nil_append, append_nil] at hequals
              exact absurd hequals hword
            · exact ⟨value, by simp⟩
      · rintro (hnames | ⟨hhead, -⟩)
        · obtain ⟨value, rfl⟩ := hnames.resolve_left (fun h => hnot (.inl h)) |>.resolve_left fun h => hnot (.inr h)
          rw [append_assoc, singleton_append, words_argName hname]
          rfl
        · exact hhead
    unfold parseToken
    rw [if_pos hequals]
    cases hwords : Lib.words '=' token with
    | nil =>
      obtain ⟨c, hc, hne⟩ := htoken
      exact absurd (Lib.words_eq_nil_iff.mp hwords c hc) hne
    | cons argument values =>
      rw [hwords, head?_cons, Option.some_inj] at hremoved
      rw [head?_cons, Option.some_inj, ← hremoved]
      dsimp only
      split
      · rename_i heq
        exact ⟨true, _, rfl, iff_of_true rfl heq⟩
      · rename_i hne
        exact ⟨false, _, rfl, iff_of_false Bool.false_ne_true hne⟩
  · have hfirst : token.head? ≠ some '=' := fun h => hequals (mem_of_mem_head? h)
    have hprefix : ¬(argName ++ ['=']) <+: token := fun h =>
      hequals (h.subset (mem_append_right _ mem_cons_self))
    have hno : token.take 5 = ['-', '-', 'n', 'o', '-'] ∧ token.drop 5 = argName.drop 2 ↔
        token = ['-', '-', 'n', 'o', '-'] ++ argName.drop 2 := by
      constructor
      · rintro ⟨htake, hdrop⟩
        rw [← htake, ← hdrop, take_append_drop]
      · rintro rfl
        exact ⟨rfl, rfl⟩
    have hnames : Names argName token ∨ (Lib.words '=' token).head? = some argName ∧ token.head? = some '=' ↔
        token = argName ∨ token = ['-', '-', 'n', 'o', '-'] ++ argName.drop 2 := by
      unfold Names
      rw [iff_false_intro hprefix, or_false, iff_false_intro hfirst, and_false, or_false]
    unfold parseToken
    rw [if_neg hequals, hnames]
    simp only [hno]
    split
    · rename_i heq
      exact ⟨true, _, rfl, iff_of_true rfl (.inl heq)⟩
    · rename_i hne
      split
      · rename_i heq
        exact ⟨true, _, rfl, iff_of_true rfl (.inr heq)⟩
      · rename_i hne'
        exact ⟨false, _, rfl, iff_of_false Bool.false_ne_true (not_or.mpr ⟨hne, hne'⟩)⟩

/-! ## The loop -/

theorem stringAt_append (front : List Char) {text stale : List Char} (htext : nul ∉ text) :
    stringAt (front ++ (text ++ nul :: stale)) front.length = text := by
  have hall : ∀ c ∈ text, decide (c ≠ nul) = true := fun c hc => decide_eq_true fun heq => htext (heq ▸ hc)
  rw [stringAt, drop_left, takeWhile_append_of_pos hall, takeWhile_cons_of_neg (by simp), append_nil]

theorem stringAt_zero {text stale : List Char} (htext : nul ∉ text) : stringAt (text ++ nul :: stale) 0 = text :=
  stringAt_append [] htext

theorem skipSpaces_append (front : List Char) {blanks : List Char} (text stale : List Char) (hblanks : ∀ c ∈ blanks, c = ' ') :
    skipSpaces (front ++ (blanks ++ (text ++ nul :: stale))) front.length =
      some ((front ++ blanks).length + (text.takeWhile isSpace).length) := by
  have hspace : ∀ c ∈ blanks, isSpace c = true := fun c hc => hblanks c hc ▸ rfl
  have hstop : (text ++ nul :: stale).takeWhile isSpace = text.takeWhile isSpace := by
    rw [takeWhile_append]
    split
    · rename_i hall
      rw [takeWhile_cons_of_neg (by decide), append_nil]
      exact (takeWhile_sublist isSpace).eq_of_length hall |>.symm
    · rfl
  have hlength := (takeWhile_sublist isSpace (l := text)).length_le
  unfold skipSpaces
  rw [drop_left, takeWhile_append_of_pos hspace, hstop, length_append, ← Nat.add_assoc,
    ← length_append, if_pos]
  simp only [length_append, length_cons]
  omega

theorem moveString_append (front token : List Char) {rest : List Char} (stale : List Char) (hrest : nul ∉ rest) :
    ∃ stale', moveString (front ++ (token ++ (rest ++ nul :: stale))) front.length (front.length + token.length) =
      some (front ++ (rest ++ nul :: stale')) := by
  have hstring : stringAt (front ++ (token ++ (rest ++ nul :: stale))) (front.length + token.length) = rest := by
    rw [← append_assoc, ← length_append]
    exact stringAt_append _ hrest
  unfold moveString
  rw [hstring, if_pos, take_left]
  · exact ⟨_, rfl⟩
  · simp only [length_append, length_cons]
    omega

/-- What a token leaves in the string, and in `arg_value`. -/
def leaves (argName token : List Char) : List Char := if (parseToken argName token).any (·.1) then [] else token

def valueAfter (argName : List Char) (argMaxLen : ℕ) (value token : List Char) : List Char :=
  (((parseToken argName token).bind (·.2)).map (take (argMaxLen - 1))).getD value

theorem parseStep_followed (argName : List Char) (argMaxLen : ℕ) (front : List Char) {blanks token rest : List Char}
    (stale value : List Char) (hblanks : ∀ c ∈ blanks, c = ' ') (htoken : token ≠ []) (hfollowed : Followed token) (hrest : nul ∉ rest) :
    ∃ stale', parseStep argName argMaxLen ⟨front ++ (blanks ++ (token ++ (rest ++ nul :: stale))), front.length, value⟩ token =
      some ⟨(front ++ blanks ++ leaves argName token) ++ (rest ++ nul :: stale'),
        (front ++ blanks ++ leaves argName token).length, valueAfter argName argMaxLen value token⟩ := by
  obtain ⟨c, token, rfl⟩ := exists_cons_of_ne_nil htoken
  have hnone : ((c :: token) ++ rest).takeWhile isSpace = [] := by
    have hc : ¬isSpace c = true := by simpa [Followed] using hfollowed.1
    rw [cons_append, takeWhile_cons_of_neg hc]
  have hskip := skipSpaces_append front ((c :: token) ++ rest) stale hblanks
  rw [hnone, length_nil, Nat.add_zero, append_assoc] at hskip
  have hmem : front ++ (blanks ++ ((c :: token) ++ (rest ++ nul :: stale))) =
      (front ++ blanks) ++ ((c :: token) ++ (rest ++ nul :: stale)) := (append_assoc _ _ _).symm
  unfold parseStep leaves valueAfter
  rw [hskip]
  cases hparse : parseToken argName (c :: token) with
  | none =>
    obtain ⟨x, hx, hne⟩ := hfollowed.2
    exact absurd ((parseToken_eq_none (cons_ne_nil c token)).mp hparse x hx) hne
  | some r =>
    obtain ⟨removeToken, newValue⟩ := r
    cases removeToken with
    | true =>
      obtain ⟨stale', hmove⟩ := moveString_append (front ++ blanks) (c :: token) stale hrest
      refine ⟨stale', ?_⟩
      rw [hmem]
      simp only [Option.bind_eq_bind, Option.bind_some, if_true, Option.any_some, append_nil]
      rw [hmove]
      rfl
    | false =>
      refine ⟨stale, ?_⟩
      rw [hmem]
      simp only [Option.bind_eq_bind, Option.bind_some, Option.any_some, Bool.false_eq_true, if_false]
      rw [append_assoc (front ++ blanks), ← length_append]

theorem not_aligned {front blanks token rest stale value : List Char} {starts : List (List Char)}
    (hblanks : ∀ c ∈ blanks, c = ' ') (htoken : token ≠ []) (hword : ' ' ∉ token)
    (hrest : rest = [] ∨ ∃ text, rest = ' ' :: text) (hnul : nul ∉ front ++ (blanks ++ (token ++ rest)))
    (hnot : ¬Followed token) :
    ¬Aligned argName argMaxLen ⟨front ++ (blanks ++ (token ++ (rest ++ nul :: stale))), front.length, value⟩
      ((token ++ rest) :: starts) := by
  rintro ⟨⟨progress, hskip, text, hstring, hplace⟩, s', hstep, -⟩
  obtain ⟨c, token, rfl⟩ := exists_cons_of_ne_nil htoken
  by_cases hspace : isSpace c = true
  · have hall : (front ++ (blanks ++ ((c :: token) ++ (rest ++ nul :: stale)))) =
        (front ++ (blanks ++ ((c :: token) ++ rest))) ++ nul :: stale := by simp
    have hplace' := skipSpaces_append front ((c :: token) ++ rest) stale hblanks
    rw [append_assoc (c :: token), hskip, cons_append, takeWhile_cons_of_pos hspace, length_cons] at hplace'
    rw [hall, stringAt_zero hnul, ← append_assoc] at hstring
    have hfront : front ++ blanks = text := append_cancel_right hstring
    have hlength := Option.some.inj hplace'
    rw [hplace, hfront] at hlength
    omega
  · have hequals : ∀ x ∈ c :: token, x = '=' := by
      by_contra hsome
      simp only [not_forall] at hsome
      obtain ⟨x, hx, hne⟩ := hsome
      refine hnot ⟨?_, x, hx, hne⟩
      simpa using hspace
    rw [Lib.firstWord_append hword hrest] at hstep
    unfold parseStep at hstep
    rw [hskip, (parseToken_eq_none htoken).mpr hequals] at hstep
    cases hstep

theorem leaves_cases (argName token : List Char) : leaves argName token = [] ∨ leaves argName token = token := by
  unfold leaves
  split
  · exact .inl rfl
  · exact .inr rfl

theorem tokens_leaves {front blanks token : List Char} (hblanks : ∀ c ∈ blanks, c = ' ') (hne : token ≠ [])
    (hword : ' ' ∉ token) (hborder : front = [] ∨ blanks ≠ []) :
    tokens (front ++ blanks ++ leaves argName token) = tokens front ++ [leaves argName token].filter (· ≠ []) := by
  rcases leaves_cases argName token with heq | heq
  · rw [heq, append_nil, tokens, Lib.words_append_delimiters front hblanks]
    exact (append_nil _).symm
  · have hkept : [token].filter (· ≠ []) = [token] := filter_cons_of_pos (by simpa using hne)
    rw [heq, hkept, tokens, tokens]
    cases blanks with
    | nil =>
      rw [hborder.resolve_right (not_not.mpr rfl), nil_append, nil_append, Lib.words_eq_singleton hne hword]
      rfl
    | cons c blanks =>
      obtain ⟨rfl, hrest⟩ := forall_mem_cons.mp hblanks
      have hlast : Lib.words ' ' (blanks ++ (token ++ [])) = token :: Lib.words ' ' [] :=
        Lib.words_word hrest hne hword (.inl rfl)
      rw [append_nil] at hlast
      rw [append_assoc, cons_append, Lib.words_append_cons, hlast]
      rfl

theorem at_followed {front blanks token rest stale : List Char} (hblanks : ∀ c ∈ blanks, c = ' ') (hne : token ≠ [])
    (hfollowed : Followed token) (hnul : nul ∉ front ++ (blanks ++ (token ++ rest))) :
    ∃ progress, skipSpaces (front ++ (blanks ++ (token ++ (rest ++ nul :: stale)))) front.length = some progress ∧
      At (token ++ rest) (front ++ (blanks ++ (token ++ (rest ++ nul :: stale)))) progress := by
  obtain ⟨c, token, rfl⟩ := exists_cons_of_ne_nil hne
  have hnone : ((c :: token) ++ rest).takeWhile isSpace = [] := by
    have hc : ¬isSpace c = true := by simpa [Followed] using hfollowed.1
    rw [cons_append, takeWhile_cons_of_neg hc]
  have hskip := skipSpaces_append front ((c :: token) ++ rest) stale hblanks
  rw [hnone, length_nil, Nat.add_zero, append_assoc] at hskip
  have hmem : front ++ (blanks ++ ((c :: token) ++ (rest ++ nul :: stale))) =
      (front ++ (blanks ++ ((c :: token) ++ rest))) ++ nul :: stale := by simp only [append_assoc]
  refine ⟨_, hskip, front ++ blanks, ?_, rfl⟩
  rw [hmem, stringAt_zero hnul, append_assoc]

/-- **The loop** on what remains of the arguments, with what it has left of them so far in front: it stays aligned as long as
it can follow the tokens, and leaves those that are not taken for the option. -/
theorem parseLoop_spec (argName : List Char) (argMaxLen : ℕ) (text : List Char) :
    ∀ front stale value : List Char, nul ∉ front → nul ∉ text →
      (front = [] ∨ text = [] ∨ ∃ text', text = ' ' :: text') →
      (Aligned argName argMaxLen ⟨front ++ (text ++ nul :: stale), front.length, value⟩ (Lib.wordStarts ' ' false text) ↔
        ∀ token ∈ tokens text, Followed token) ∧
      ((∀ token ∈ tokens text, Followed token) →
        ∃ left stale' progress, parseLoop argName argMaxLen ⟨front ++ (text ++ nul :: stale), front.length, value⟩
            (Lib.wordStarts ' ' false text) =
              some ⟨left ++ nul :: stale', progress, (tokens text).foldl (valueAfter argName argMaxLen) value⟩ ∧
          nul ∉ left ∧ tokens left = tokens front ++ ((tokens text).map (leaves argName)).filter (· ≠ [])) := by
  induction text using Lib.words_induction (z := ' ') with
  | blank blanks hblanks =>
    intro front stale value hfront htext _
    have hstarts : Lib.wordStarts ' ' false blanks = [] := map_eq_nil_iff.mp (Lib.words_delimiters hblanks)
    have htokens : tokens blanks = [] := Lib.words_delimiters hblanks
    rw [hstarts, htokens]
    refine ⟨iff_of_true trivial nofun, fun _ => ⟨front ++ blanks, stale, front.length, ?_, ?_, ?_⟩⟩
    · rw [append_assoc]
      rfl
    · exact fun h => (mem_append.mp h).elim hfront htext
    · rw [tokens, Lib.words_append_delimiters front hblanks, map_nil, filter_nil, append_nil]
      rfl
  | step blanks token rest hblanks hne hword hrest ih =>
    intro front stale value hfront htext hborder
    have hstarts : Lib.wordStarts ' ' false (blanks ++ (token ++ rest)) = (token ++ rest) :: Lib.wordStarts ' ' false rest := by
      rw [Lib.wordStarts_delimiters hblanks, Lib.wordStarts_word hne hword hrest]
    have htokens : tokens (blanks ++ (token ++ rest)) = token :: tokens rest := Lib.words_word hblanks hne hword hrest
    have hnul : nul ∉ front ++ (blanks ++ (token ++ rest)) := fun h => (mem_append.mp h).elim hfront htext
    have hnulRest : nul ∉ rest := fun h => htext (mem_append_right _ (mem_append_right _ h))
    have hmem : front ++ ((blanks ++ (token ++ rest)) ++ nul :: stale) =
        front ++ (blanks ++ (token ++ (rest ++ nul :: stale))) := by simp only [append_assoc]
    rw [hstarts, htokens, hmem]
    by_cases hfollowed : Followed token
    · obtain ⟨stale', hstep⟩ := parseStep_followed argName argMaxLen front stale value hblanks hne hfollowed hnulRest
      have hnulLeft : nul ∉ front ++ blanks ++ leaves argName token := by
        intro h
        refine hnul ?_
        rw [← append_assoc]
        rcases mem_append.mp h with hmem | hmem
        · exact mem_append_left _ hmem
        · rcases leaves_cases argName token with heq | heq
          · rw [heq] at hmem
            cases hmem
          · exact mem_append_right _ (mem_append_left _ (heq ▸ hmem))
      have hstart : front = [] ∨ blanks ≠ [] := by
        refine or_iff_not_imp_right.mpr fun hblank => ?_
        rw [not_not.mp hblank, nil_append] at hborder
        rcases hborder with h | h | ⟨text', h⟩
        · exact h
        · exact absurd (append_eq_nil_iff.mp h).1 hne
        · obtain ⟨c, word, rfl⟩ := exists_cons_of_ne_nil hne
          exact absurd (mem_cons.mpr (.inl (cons.inj h).1.symm)) hword
      obtain ⟨haligned, hresult⟩ := ih _ stale' (valueAfter argName argMaxLen value token) hnulLeft hnulRest (.inr hrest)
      constructor
      · rw [forall_mem_cons, ← haligned]
        constructor
        · rintro ⟨-, s', hs', hrest'⟩
          rw [Lib.firstWord_append hword hrest, hstep] at hs'
          exact ⟨hfollowed, Option.some.inj hs' ▸ hrest'⟩
        · rintro ⟨-, hrest'⟩
          exact ⟨at_followed hblanks hne hfollowed hnul, _, by rw [Lib.firstWord_append hword hrest]; exact hstep, hrest'⟩
      · intro hall
        obtain ⟨left, stale'', progress, hloop, hnulEnd, hleft⟩ := hresult (forall_mem_cons.mp hall).2
        refine ⟨left, stale'', progress, ?_, hnulEnd, ?_⟩
        · rw [parseLoop, Lib.firstWord_append hword hrest, hstep, Option.bind_some, hloop, foldl_cons]
        · rw [hleft, tokens_leaves hblanks hne hword hstart, append_assoc, ← filter_append]
          rfl
    · exact ⟨iff_of_false (not_aligned hblanks hne hword hrest hnul hfollowed) fun h =>
        hfollowed (forall_mem_cons.mp h).1, fun h => absurd (forall_mem_cons.mp h).1 hfollowed⟩

/-! ## The whole string -/

theorem filter_leaves {l : List (List Char)} (hl : [] ∉ l) :
    (l.map (leaves argName)).filter (· ≠ []) = l.filter (leaves argName · ≠ []) := by
  induction l with
  | nil => rfl
  | cons token l ih =>
    obtain ⟨hne, hl⟩ := ne_and_not_mem_of_not_mem_cons hl
    rw [map_cons]
    rcases leaves_cases argName token with heq | heq
    · rw [filter_cons_of_neg (by simp [heq]), filter_cons_of_neg (by simp [heq]), ih hl]
    · rw [filter_cons_of_pos (by simpa [heq] using hne.symm), filter_cons_of_pos (by simpa [heq] using hne.symm),
        heq, ih hl]

theorem leaves_ne_nil_iff (hname : ArgName argName) (hne : token ≠ []) (hfollowed : Followed token) :
    leaves argName token ≠ [] ↔ ¬Names argName token ∧ NotMistaken argName token := by
  obtain ⟨removeToken, value, hparse, hiff⟩ := parseToken_iff hname hfollowed.2
  have hleaves : leaves argName token ≠ [] ↔ ¬removeToken = true := by
    rw [leaves, hparse, Option.any_some]
    split
    · rename_i hremove
      exact iff_of_false (fun h => h rfl) (not_not.mpr hremove)
    · rename_i hremove
      exact iff_of_true hne hremove
  rw [hleaves, hiff, not_or, not_and]
  rfl

theorem parseDlbArgs_spec (hname : ArgName argName) (argMaxLen : ℕ) {dlbArgs : List Char} (hnul : nul ∉ dlbArgs)
    (hall : ∀ token ∈ tokens dlbArgs, Followed token ∧ NotMistaken argName token) :
    ∃ s, parseDlbArgs argName argMaxLen dlbArgs = some s ∧ nul ∉ stringAt s.dlbArgs 0 ∧
      tokens (stringAt s.dlbArgs 0) = (tokens dlbArgs).filter (¬Names argName ·) ∧
      s.argValue = (tokens dlbArgs).foldl (valueAfter argName argMaxLen) [] := by
  have hne : [] ∉ tokens dlbArgs := fun h => (Lib.of_mem_words h).1 rfl
  obtain ⟨left, stale, progress, hs, hnulLeft, heq⟩ := (parseLoop_spec argName argMaxLen dlbArgs [] [] [] not_mem_nil
    hnul (.inl rfl)).2 fun token htoken => (hall token htoken).1
  refine ⟨_, hs, (stringAt_zero hnulLeft).symm ▸ hnulLeft, ?_, rfl⟩
  rw [stringAt_zero hnulLeft, heq, filter_leaves hne]
  refine filter_congr fun token htoken => decide_eq_decide.mpr ?_
  rw [leaves_ne_nil_iff hname (fun h => hne (h ▸ htoken)) (hall token htoken).1]
  exact and_iff_left (hall token htoken).2

theorem Names.head? (hname : ArgName argName) (h : Names argName token) : token.head? ≠ some '=' := by
  obtain ⟨name, rfl⟩ := hname.dashes
  rcases h with rfl | rfl | ⟨value, rfl⟩
  · exact fun h => absurd (Option.some.inj h) (by decide)
  · exact fun h => absurd (Option.some.inj h) (by decide)
  · exact fun h => absurd (Option.some.inj h) (by decide)

/-- **An option is removed** with all the tokens that name it, and nothing else is touched, exactly if no token starts with
white space, consists of `=`, or is the name of the option behind a `=`. -/
theorem removes_option_iff (hname : ArgName argName) (argMaxLen : ℕ) (dlbArgs : List Char) (hnul : nul ∉ dlbArgs) :
    RemovesOption argName argMaxLen dlbArgs ↔ ∀ token ∈ tokens dlbArgs, Followed token ∧ NotMistaken argName token := by
  obtain ⟨haligned, hresult⟩ := parseLoop_spec argName argMaxLen dlbArgs [] [] [] not_mem_nil hnul (.inl rfl)
  have hne : [] ∉ tokens dlbArgs := fun h => (Lib.of_mem_words h).1 rfl
  constructor
  · rintro ⟨hloop, s, hs, htokens⟩
    have hfollowed := haligned.mp hloop
    obtain ⟨left, stale, progress, hs', hnulLeft, heq⟩ := hresult hfollowed
    obtain rfl := Option.some.inj (hs.symm.trans hs')
    have hnone : tokens [] = [] := rfl
    rw [stringAt_zero hnulLeft, heq, hnone, nil_append, filter_leaves hne] at htokens
    refine fun token htoken => ⟨hfollowed token htoken, fun hhead hequals => ?_⟩
    have hnames : ¬Names argName token := fun h => h.head? hname hequals
    have hkept : token ∈ (tokens dlbArgs).filter (¬Names argName ·) := mem_filter.mpr ⟨htoken, by simpa using hnames⟩
    have hmem : token ∈ (tokens dlbArgs).filter (leaves argName · ≠ []) := htokens.symm ▸ hkept
    have hstay : leaves argName token ≠ [] := by simpa using (mem_filter.mp hmem).2
    exact ((leaves_ne_nil_iff hname (fun h => hne (h ▸ htoken)) (hfollowed token htoken)).mp hstay).2 hhead hequals
  · intro hall
    obtain ⟨s, hs, -, htokens, -⟩ := parseDlbArgs_spec hname argMaxLen hnul hall
    exact ⟨haligned.mpr fun token htoken => (hall token htoken).1, s, hs, htokens⟩

/-- The option `--a` is taken out of arguments that have it three times. -/
theorem removes_option_thrice :
    RemovesOption ['-', '-', 'a'] 63 "--a --b=--a  --a=x --no-a".toList ∧
      tokens "--a --b=--a  --a=x --no-a".toList = ["--a".toList, "--b=--a".toList, "--a=x".toList, "--no-a".toList] :=
  ⟨(removes_option_iff ⟨⟨['a'], rfl⟩, by decide, by decide⟩ 63 _ (by decide)).mpr
    (by unfold NotMistaken; decide), by decide⟩

/-- A tab in front of an option: `progress` skips it, and leaves the string behind its end. -/
theorem tab_in_front : ¬RemovesOption ['-', '-', 'a'] 63 ['\t', '-', '-', 'b'] := by
  rintro ⟨⟨⟨progress, hskip, front, hstring, hplace⟩, -⟩, -⟩
  have hthree : progress = 1 := (Option.some.inj hskip).symm
  have hfour : stringAt (['\t', '-', '-', 'b'] ++ [nul]) 0 = ['\t', '-', '-', 'b'] := by decide
  have hlength := congrArg length hstring
  rw [length_append, ← hplace, hthree] at hlength
  exact absurd hlength (by decide)

end Dlb

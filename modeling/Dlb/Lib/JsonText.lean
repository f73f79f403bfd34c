import Mathlib.Data.List.TakeWhile
import Dlb.Lib.Json

/-!
# Texts that read as JSON

What a printer writes is put together from pieces, and some of them are not under its control. `Reads P text ts` says that
between two tokens the text reads as the tokens `ts` exactly if `P` holds, whatever follows. Pieces compose
(`Reads.append`), so that the condition for a whole text is that of its pieces.

A string that is printed as it is (`quoted`) reads as itself exactly if it is `Plain`: otherwise it ends too early, or its
escapes make it shorter, or it runs into the end of the line (`lexFrom_quoted_iff`).

The layout is one member or item a line (`object`, `array`).
-/

namespace Lib.Json

open List

variable {P Q : Prop} {a b k text v : List Char} {s t ts : List Token} {texts : List (List Char)}
  {tss : List (List Token)} {c : Char} {m e : ℤ} {n : ℕ}

/-! ## Strings -/

/-- A text without characters that JSON escapes in a string. -/
def Plain (text : List Char) : Prop := ∀ c ∈ text, c ≠ '"' ∧ c ≠ '\\' ∧ ¬c < ' '

instance : Decidable (Plain text) := decidableBAll (fun c => c ≠ '"' ∧ c ≠ '\\' ∧ ¬c < ' ') text

def quoted (text : List Char) : List Char := '"' :: (text ++ ['"'])

theorem plain_cons : Plain (c :: text) ↔ (c ≠ '"' ∧ c ≠ '\\' ∧ ¬c < ' ') ∧ Plain text := forall_mem_cons

theorem lexFrom_string (read : List Char) (escape : Escape) (hc : ¬(escape = .none ∧ c = '"')) (rest : List Char) :
    lexFrom (.string read escape) (c :: rest) =
      (readChar read escape c).bind fun (read, escape) => lexFrom (.string read escape) rest := by
  rw [lexFrom, step, if_neg hc]
  cases readChar read escape c with
  | none => rfl
  | some r => exact Option.map_id'

theorem lexFrom_close (read rest : List Char) :
    lexFrom (.string read .none) ('"' :: rest) = (lexFrom .between rest).map fun ts => .str read.reverse :: ts := rfl

theorem readChar_plain (hc : c ≠ '\\' ∧ ¬c < ' ') (read : List Char) :
    readChar read .none c = some (c :: read, .none) := by
  rw [readChar, if_neg hc.2, if_neg hc.1]

theorem lexFrom_plain (h : Plain text) (read rest : List Char) :
    lexFrom (.string read .none) (text ++ '"' :: rest) =
      (lexFrom .between rest).map fun ts => .str (read.reverse ++ text) :: ts := by
  induction text generalizing read with
  | nil => rw [nil_append, append_nil, lexFrom_close]
  | cons c text ih =>
    obtain ⟨⟨hquote, hc⟩, htext⟩ := plain_cons.mp h
    rw [cons_append, lexFrom_string _ _ fun h => hquote h.2, readChar_plain hc]
    refine (ih htext _).trans ?_
    rw [reverse_cons, append_assoc, singleton_append]

theorem unicode_length {read read' : List Char} {high : Option ℕ} {escape' : Escape}
    (h : unicode read high n = some (read', escape')) : read'.length ≤ read.length + 1 := by
  cases high with
  | none =>
    rw [unicode] at h
    split at h
    · cases h
      exact Nat.le_succ _
    · split at h
      · cases h
      · cases h
        exact Nat.le_refl _
  | some u =>
    rw [unicode] at h
    split at h
    · cases h
      exact Nat.le_refl _
    · cases h

theorem readChar_length {read read' : List Char} {escape escape' : Escape}
    (h : readChar read escape c = some (read', escape')) : read'.length ≤ read.length + 1 := by
  cases escape with
  | none =>
    rw [readChar] at h
    split at h
    · cases h
    · split at h
      · cases h
        exact Nat.le_succ _
      · cases h
        exact Nat.le_refl _
  | started =>
    rw [readChar] at h
    split at h
    · cases h
      exact Nat.le_succ _
    · obtain ⟨d, -, he⟩ := Option.map_eq_some_iff.mp h
      cases he
      exact Nat.le_refl _
  | hex high k unit =>
    obtain ⟨d, -, h⟩ := Option.bind_eq_some_iff.mp h
    split at h
    · cases h
      exact Nat.le_succ _
    · exact unicode_length h
  | high unit =>
    rw [readChar] at h
    split at h
    · cases h
      exact Nat.le_succ _
    · cases h
  | highStarted unit =>
    rw [readChar] at h
    split at h
    · cases h
      exact Nat.le_succ _
    · cases h

theorem readChar_newline (read : List Char) (escape : Escape) : readChar read escape '\n' = none := by
  cases escape with
  | none => rfl
  | started => rfl
  | hex high digits unit => rfl
  | high unit => rfl
  | highStarted unit => rfl

theorem lexFrom_line (read : List Char) (escape : Escape) {line : List Char} (hline : '"' ∉ line) (rest : List Char) :
    lexFrom (.string read escape) (line ++ '\n' :: rest) = none := by
  induction line generalizing read escape with
  | nil =>
    rw [nil_append, lexFrom_string _ _ (fun h => absurd h.2 (by decide)), readChar_newline]
    rfl
  | cons c line ih =>
    obtain ⟨hc, hline⟩ := ne_and_not_mem_of_not_mem_cons hline
    rw [cons_append, lexFrom_string _ _ fun h => hc h.2.symm]
    cases readChar read escape c with
    | none => rfl
    | some r => exact ih r.1 r.2 hline

def EndsLine (rest : List Char) : Prop := ∃ line rest', rest = line ++ '\n' :: rest' ∧ '"' ∉ line

theorem lexFrom_behind {read : List Char} {escape : Escape} {rest : List Char} (hrest : EndsLine rest)
    (hbehind : read.length + text.length < n) (h : lexFrom (.string read escape) (text ++ '"' :: rest) = some ts) :
    ∃ r ts', ts = .str r :: ts' ∧ r.length < n := by
  induction text generalizing read escape with
  | nil =>
    by_cases hescape : escape = .none
    · rw [hescape, nil_append, lexFrom_close] at h
      obtain ⟨ts', -, rfl⟩ := Option.map_eq_some_iff.mp h
      exact ⟨_, _, rfl, by rw [length_reverse]; exact hbehind⟩
    · rw [nil_append, lexFrom_string _ _ fun h => hescape h.1] at h
      obtain ⟨r, -, hr⟩ := Option.bind_eq_some_iff.mp h
      obtain ⟨line, rest', rfl, hline⟩ := hrest
      exact nomatch (lexFrom_line r.1 r.2 hline rest').symm.trans hr
  | cons c text ih =>
    rw [length_cons] at hbehind
    by_cases hclose : escape = .none ∧ c = '"'
    · rw [hclose.1, hclose.2, cons_append, lexFrom_close] at h
      obtain ⟨ts', -, rfl⟩ := Option.map_eq_some_iff.mp h
      exact ⟨_, _, rfl, by rw [length_reverse]; omega⟩
    · rw [cons_append, lexFrom_string _ _ hclose] at h
      obtain ⟨r, hr, h⟩ := Option.bind_eq_some_iff.mp h
      have hlen := readChar_length hr
      exact ih (by omega) h

theorem lexFrom_not_plain {read : List Char} {rest : List Char} (hrest : EndsLine rest) (hplain : ¬Plain text)
    (h : lexFrom (.string read .none) (text ++ '"' :: rest) = some ts) :
    ∃ r ts', ts = .str r :: ts' ∧ r.length < read.length + text.length := by
  induction text generalizing read with
  | nil => exact absurd nofun hplain
  | cons c text ih =>
    by_cases hquote : c = '"'
    · rw [hquote, cons_append, lexFrom_close] at h
      obtain ⟨ts', -, rfl⟩ := Option.map_eq_some_iff.mp h
      exact ⟨_, _, rfl, by rw [length_reverse, length_cons]; omega⟩
    · rw [cons_append, lexFrom_string _ _ fun h => hquote h.2, readChar] at h
      split at h
      · cases h
      · rename_i hcontrol
        split at h
        · -- the backslash makes the string one shorter than its text
          exact lexFrom_behind hrest (Nat.lt_succ_self _) h
        · rename_i hslash
          obtain ⟨r, ts', rfl, hr⟩ := ih (fun htext => hplain (plain_cons.mpr ⟨⟨hquote, hslash, hcontrol⟩, htext⟩)) h
          refine ⟨r, ts', rfl, ?_⟩
          rw [length_cons] at hr ⊢
          omega

theorem lexFrom_quoted (rest : List Char) :
    lexFrom .between (quoted text ++ rest) = lexFrom (.string [] .none) (text ++ '"' :: rest) := by
  rw [quoted, cons_append, append_assoc, singleton_append]
  exact Option.map_id'

theorem lexFrom_quoted_iff {rest : List Char} (hrest : EndsLine rest) :
    lexFrom .between (quoted text ++ rest) = some (.str text :: ts) ↔ Plain text ∧ lexFrom .between rest = some ts := by
  rw [lexFrom_quoted]
  by_cases hplain : Plain text
  · rw [and_iff_right hplain, lexFrom_plain hplain, Option.map_eq_some_iff]
    refine ⟨fun ⟨ts', hts', he⟩ => ?_, fun h => ⟨ts, h, rfl⟩⟩
    rw [hts', (cons.inj he).2]
  · refine ⟨fun h => ?_, fun h => absurd h.1 hplain⟩
    obtain ⟨r, ts', he, hlen⟩ := lexFrom_not_plain hrest hplain h
    rw [Token.str.inj (cons.inj he).1, length_nil, Nat.zero_add] at hlen
    exact absurd hlen (Nat.lt_irrefl _)

/-! ## Pieces of a text -/

/-- Between two tokens the text reads as the tokens exactly if `P`, whatever follows. -/
def Reads (P : Prop) (text : List Char) (ts : List Token) : Prop :=
  ∀ rest ts', lexFrom .between (text ++ rest) = some (ts ++ ts') ↔ P ∧ lexFrom .between rest = some ts'

theorem Reads.lex_iff (h : Reads P text ts) : lex text = some ts ↔ P := by
  have hend := h [] []
  rw [append_nil, append_nil] at hend
  exact hend.trans (and_iff_left rfl)

theorem Reads.congr (h : Reads P text ts) (hPQ : P ↔ Q) : Reads Q text ts := fun rest ts' =>
  (h rest ts').trans (and_congr_left fun _ => hPQ)

theorem Reads.append (ha : Reads P a s) (hb : Reads Q b t) : Reads (P ∧ Q) (a ++ b) (s ++ t) := fun rest ts' => by
  rw [append_assoc, append_assoc, ha, hb, and_assoc]

theorem Reads.nil : Reads True [] [] := fun _ _ => (and_iff_right trivial).symm

theorem Reads.cons (hc : begin c = some (.between, s)) (h : Reads P text t) : Reads P (c :: text) (s ++ t) :=
  fun rest ts' => by
    rw [cons_append, lexFrom, step, hc, Option.bind_some, append_assoc, ← h rest ts',
      Option.map_eq_some_iff]
    refine ⟨fun ⟨ts'', hts'', he⟩ => ?_, fun hts => ⟨_, hts, rfl⟩⟩
    rw [hts'', append_cancel_left he]

theorem Reads.plain (hk : Plain k) : Reads True (quoted k) [.str k] := fun rest ts' => by
  rw [lexFrom_quoted, lexFrom_plain hk, and_iff_right trivial, Option.map_eq_some_iff]
  exact ⟨fun ⟨ts'', hts'', he⟩ => hts''.trans (congrArg some (cons.inj he).2), fun hts => ⟨ts', hts, rfl⟩⟩

theorem Reads.quoted (hline : EndsLine b) (hb : Reads Q b t) : Reads (Plain a ∧ Q) (quoted a ++ b) (.str a :: t) :=
  fun rest ts' => by
    obtain ⟨line, rest', rfl, hquote⟩ := hline
    have hends : EndsLine (line ++ '\n' :: rest' ++ rest) := ⟨line, rest' ++ rest, by simp, hquote⟩
    rw [append_assoc, cons_append, lexFrom_quoted_iff hends, hb, and_assoc]

/-! ## Numbers -/

theorem lexFrom_number (read rest : List Char) (htext : ∀ c ∈ text, isNumberChar c) :
    lexFrom (.number read) (text ++ rest) = lexFrom (.number (text.reverse ++ read)) rest := by
  induction text generalizing read with
  | nil => rfl
  | cons c text ih =>
    obtain ⟨hc, htext⟩ := forall_mem_cons.mp htext
    rw [cons_append, lexFrom, step, if_pos hc, reverse_cons, append_assoc, singleton_append]
    exact Option.map_id'.trans (ih _ htext)

theorem lexFrom_number_end {read : List Char} (hnumber : number read.reverse = some (m, e)) (hc : ¬isNumberChar c)
    (rest : List Char) :
    lexFrom (.number read) (c :: rest) = (lexFrom .between (c :: rest)).map fun ts => .num m e :: ts := by
  rw [lexFrom, step, if_neg hc, hnumber, Option.bind_some, lexFrom, step]
  cases begin c with
  | none => rfl
  | some r => exact (Option.map_map (fun ts => Token.num m e :: ts) (fun ts' => r.2 ++ ts') (lexFrom r.1 rest)).symm

theorem begin_number (hc : startsNumber c) : begin c = some (.number [c], []) := by
  have hne : ∀ d, ¬startsNumber d → c ≠ d := fun d hd he => hd (he ▸ hc)
  have hspace : ¬isSpace c := by
    simp [isSpace, hne ' ' (by decide), hne '\n' (by decide), hne '\t' (by decide), hne '\r' (by decide)]
  rw [begin, if_neg hspace, if_neg (hne '"' (by decide)), if_pos hc]

theorem Reads.number (hnumber : number (c :: text) = some (m, e)) (hc : startsNumber c)
    (htext : ∀ c ∈ text, isNumberChar c) {d : Char} (hd : ¬isNumberChar d) (h : Reads P (d :: b) t) :
    Reads P (c :: text ++ d :: b) (.num m e :: t) := fun rest ts' => by
  have hread : (text.reverse ++ [c]).reverse = c :: text := by simp
  have hlex : lexFrom .between (c :: text ++ d :: b ++ rest) =
      (lexFrom .between (d :: b ++ rest)).map fun ts => .num m e :: ts := by
    rw [append_assoc, cons_append, lexFrom, step, begin_number hc, Option.bind_some]
    dsimp only
    rw [lexFrom_number _ _ htext, cons_append, lexFrom_number_end (hread ▸ hnumber) hd]
    exact Option.map_id'
  rw [hlex, ← h rest ts', Option.map_eq_some_iff]
  exact ⟨fun ⟨ts'', hts'', he⟩ => hts''.trans (congrArg some (cons.inj he).2), fun hts => ⟨_, hts, rfl⟩⟩

/-- A decimal: the sign, the whole part and the digits behind the point. -/
def numeral (negative : Bool) (whole : ℕ) (frac : List Char) : List Char :=
  (if negative then ['-'] else []) ++ (Nat.toDigits 10 whole ++ if frac = [] then [] else '.' :: frac)

def scaled (negative : Bool) (whole : ℕ) (frac : List Char) : ℤ :=
  if negative then -(Nat.ofDigitChars 10 frac whole : ℤ) else Nat.ofDigitChars 10 frac whole

theorem isDigit_of_mem_toDigits (hc : c ∈ Nat.toDigits 10 n) : c.isDigit :=
  Nat.isDigit_of_mem_toDigits (by omega) (by omega) hc

theorem toDigits_cons (n : ℕ) : ∃ d ds, Nat.toDigits 10 n = d :: ds ∧ d.isDigit := by
  cases h : Nat.toDigits 10 n with
  | nil => exact absurd h Nat.toDigits_ne_nil
  | cons d ds => exact ⟨d, ds, rfl, isDigit_of_mem_toDigits (h ▸ mem_cons_self)⟩

theorem toDigits_head? (h : (Nat.toDigits 10 n).head? = some '0') : n = 0 := by
  induction n using Nat.strongRecOn with
  | ind n ih =>
    rw [Nat.toDigits_eq_if (by omega)] at h
    split at h
    · exact Nat.digitChar_eq_zero.mp (Option.some.inj h)
    · rename_i hn
      obtain ⟨d, ds, hd, -⟩ := toDigits_cons (n / 10)
      have hdiv := ih (n / 10) (by omega) (by rw [hd] at h ⊢; exact h)
      omega

theorem fraction_point (hfrac : ∀ d ∈ text, d.isDigit) :
    fraction (if text = [] then [] else '.' :: text) = some (text, []) := by
  by_cases hnil : text = []
  · rw [if_pos hnil, hnil]
    rfl
  · rw [if_neg hnil, fraction, takeWhile_eq_self_iff.mpr hfrac, if_neg hnil,
      dropWhile_eq_nil_iff.mpr hfrac]

theorem unsigned_numeral (hfrac : ∀ d ∈ text, d.isDigit) :
    unsigned (Nat.toDigits 10 n ++ if text = [] then [] else '.' :: text) =
      some (Nat.ofDigitChars 10 text n, -(text.length : ℤ)) := by
  have hall : ∀ d ∈ Nat.toDigits 10 n, d.isDigit := fun d hd => isDigit_of_mem_toDigits hd
  have hpoint : (if text = [] then [] else '.' :: text).takeWhile Char.isDigit = [] ∧
      (if text = [] then [] else '.' :: text).dropWhile Char.isDigit = if text = [] then [] else '.' :: text := by
    split
    · exact ⟨rfl, rfl⟩
    · exact ⟨rfl, rfl⟩
  have hzero : ¬(Nat.toDigits 10 n = [] ∨ (Nat.toDigits 10 n).head? = some '0' ∧ Nat.toDigits 10 n ≠ ['0']) := by
    rintro (hnil | ⟨hhead, hne⟩)
    · exact Nat.toDigits_ne_nil hnil
    · exact hne (toDigits_head? hhead ▸ rfl)
  rw [unsigned, takeWhile_append_of_pos hall, dropWhile_append_of_pos hall, hpoint.1, hpoint.2,
    append_nil, if_neg hzero, fraction_point hfrac]
  refine congrArg some (Prod.ext ?_ (Int.zero_sub _))
  rw [Nat.ofDigitChars_append, Nat.ofDigitChars_ten_toDigits]

theorem number_numeral (negative : Bool) (hfrac : ∀ d ∈ text, d.isDigit) :
    number (numeral negative n text) = some (scaled negative n text, -(text.length : ℤ)) := by
  cases negative with
  | true =>
    have hnumeral : numeral true n text = '-' :: (Nat.toDigits 10 n ++ if text = [] then [] else '.' :: text) := rfl
    rw [number, hnumeral, if_pos head?_cons, tail_cons, unsigned_numeral hfrac]
    rfl
  | false =>
    obtain ⟨d, ds, hd, hdigit⟩ := toDigits_cons n
    have hhead : (numeral false n text).head? ≠ some '-' := by
      rw [numeral, hd]
      exact fun h => absurd (Option.some.inj h ▸ hdigit) (by decide)
    rw [number, if_neg hhead]
    exact congrArg _ (unsigned_numeral hfrac)

theorem mem_numeral {negative : Bool} (hfrac : ∀ d ∈ text, d.isDigit) (hc : c ∈ numeral negative n text) :
    c.isDigit ∨ c = '-' ∨ c = '.' := by
  rw [numeral, mem_append, mem_append] at hc
  rcases hc with hsign | hwhole | hpoint
  · cases negative with
    | true => exact .inr (.inl (mem_singleton.mp hsign))
    | false => cases hsign
  · exact .inl (isDigit_of_mem_toDigits hwhole)
  · split at hpoint
    · cases hpoint
    · rcases mem_cons.mp hpoint with hc | hc
      · exact .inr (.inr hc)
      · exact .inl (hfrac c hc)

theorem isNumberChar_numeral {negative : Bool} (hfrac : ∀ d ∈ text, d.isDigit) (hc : c ∈ numeral negative n text) :
    isNumberChar c := by
  obtain hdigit | rfl | rfl := mem_numeral hfrac hc
  · simp [isNumberChar, hdigit]
  · rfl
  · rfl

theorem plain_of_isDigit (h : c.isDigit) : c ≠ '"' ∧ c ≠ '\\' ∧ ¬c < ' ' := by
  have hne : ∀ d, ¬d.isDigit → c ≠ d := fun d hd he => hd (he ▸ h)
  refine ⟨hne _ (by decide), hne _ (by decide), fun hlt => ?_⟩
  have hle : '0'.toNat ≤ c.toNat := (Char.isDigit_iff_toNat.mp h).1
  have hspace : c.toNat < ' '.toNat := hlt
  exact absurd (hle.trans_lt hspace) (by decide)

theorem plain_numeral (negative : Bool) (n : ℕ) (hfrac : ∀ d ∈ text, d.isDigit) : Plain (numeral negative n text) :=
  fun c hc => by
    obtain hdigit | rfl | rfl := mem_numeral hfrac hc
    · exact plain_of_isDigit hdigit
    · decide
    · decide

theorem numeral_cons (negative : Bool) (n : ℕ) (text : List Char) :
    ∃ d ds, numeral negative n text = d :: ds ∧ startsNumber d := by
  obtain ⟨d, ds, hd, hdigit⟩ := toDigits_cons n
  cases negative with
  | true => exact ⟨_, _, rfl, rfl⟩
  | false =>
    refine ⟨d, ds ++ if text = [] then [] else '.' :: text, ?_, ?_⟩
    · rw [numeral, hd]
      rfl
    · simp [startsNumber, hdigit]

/-! ## Lines -/

/-- What follows a member or an item in its line. -/
def lineEnd (more : Bool) : List Char := if more then [',', '\n'] else ['\n']

def lineEndTokens (more : Bool) : List Token := if more then [.comma] else []

/-- At the end of a line the text reads as the tokens exactly if `P`. -/
def Spells (P : Prop) (text : List Char) (ts : List Token) : Prop :=
  ∀ more, Reads P (text ++ lineEnd more) (ts ++ lineEndTokens more)

theorem Reads.lineEnd (more : Bool) : Reads True (lineEnd more) (lineEndTokens more) := by
  cases more with
  | true => exact Reads.cons (c := ',') rfl (Reads.cons (c := '\n') rfl Reads.nil)
  | false => exact Reads.cons (c := '\n') rfl Reads.nil

theorem Spells.congr (h : Spells P text ts) (hPQ : P ↔ Q) : Spells Q text ts := fun more => (h more).congr hPQ

theorem Spells.of_reads (h : Reads P text ts) : Spells P text ts := fun more =>
  (h.append (Reads.lineEnd more)).congr (and_iff_left trivial)

theorem Spells.quoted (text : List Char) : Spells (Plain text) (quoted text) [.str text] := fun more => by
  refine (Reads.quoted ?_ (Reads.lineEnd more)).congr (and_iff_left trivial)
  cases more with
  | true => exact ⟨[','], [], rfl, by decide⟩
  | false => exact ⟨[], [], rfl, by decide⟩

theorem Spells.numeral (negative : Bool) (n : ℕ) (hfrac : ∀ d ∈ text, d.isDigit) :
    Spells True (numeral negative n text) [.num (scaled negative n text) (-(text.length : ℤ))] := fun more => by
  obtain ⟨d, ds, hd, hstart⟩ := numeral_cons negative n text
  have hnumber := number_numeral (n := n) negative hfrac
  have hchars : ∀ c ∈ ds, isNumberChar c := fun c hc =>
    isNumberChar_numeral hfrac (hd ▸ mem_cons_of_mem d hc : c ∈ Json.numeral negative n text)
  rw [hd] at hnumber ⊢
  cases more with
  | true => exact Reads.number hnumber hstart hchars (by decide) (Reads.lineEnd true)
  | false => exact Reads.number hnumber hstart hchars (by decide) (Reads.lineEnd false)

/-- `indent` blanks, the name and the value. -/
def member (indent : ℕ) (name value : List Char) : List Char :=
  replicate indent ' ' ++ (quoted name ++ ':' :: ' ' :: value)

theorem Reads.indent (indent : ℕ) (h : Reads P text ts) : Reads P (replicate indent ' ' ++ text) ts := by
  induction indent with
  | zero => exact h
  | succ n ih => exact Reads.cons (c := ' ') rfl ih

theorem Reads.colon (h : Reads P text ts) : Reads P (':' :: ' ' :: text) (.colon :: ts) :=
  Reads.cons (c := ':') rfl (Reads.cons (c := ' ') rfl h)

theorem Spells.member (indent : ℕ) (hk : Plain k) (h : Spells P v ts) :
    Spells P (member indent k v) (.str k :: .colon :: ts) := fun more => by
  rw [Json.member, append_assoc, append_assoc]
  exact Reads.indent indent (((Reads.plain hk).append (h more).colon).congr (and_iff_right trivial))

theorem Spells.named (indent : ℕ) (k : List Char) (hv : EndsLine v) (h : Spells P v ts) :
    Spells (Plain k ∧ P) (Json.member indent k v) (.str k :: .colon :: ts) := fun more => by
  obtain ⟨line, rest, rfl, hline⟩ := hv
  rw [Json.member, append_assoc, append_assoc]
  refine Reads.indent indent (Reads.quoted ⟨':' :: ' ' :: line, rest ++ Json.lineEnd more, by simp, ?_⟩ (h more).colon)
  simp [hline]

/-- `indent` blanks and the value. -/
def item (indent : ℕ) (value : List Char) : List Char := replicate indent ' ' ++ value

theorem Spells.item (indent : ℕ) (h : Spells P v ts) : Spells P (item indent v) ts := fun more => by
  rw [Json.item, append_assoc]
  exact Reads.indent indent (h more)

theorem Spells.other (hb : Plain b) (hne : b ≠ a) : Spells False (Json.quoted b) [.str a] := fun more rest ts' => by
  refine iff_of_false (fun h => ?_) nofun
  rw [append_assoc, lexFrom_quoted, lexFrom_plain hb] at h
  obtain ⟨ts'', -, he⟩ := Option.map_eq_some_iff.mp h
  exact hne (Token.str.inj (cons.inj he).1)

theorem Spells.unclosed (hb : '"' ∉ b) : Spells False ('"' :: b) ts := fun more rest ts' => by
  have hstart : lexFrom .between ('"' :: b ++ Json.lineEnd more ++ rest) =
      lexFrom (.string [] .none) (b ++ (Json.lineEnd more ++ rest)) := by
    rw [append_assoc, cons_append]
    exact Option.map_id'
  have hnone : lexFrom (.string [] .none) (b ++ (Json.lineEnd more ++ rest)) = none := by
    cases more with
    | true =>
      have hline : b ++ (Json.lineEnd true ++ rest) = b ++ [','] ++ '\n' :: rest := by simp [Json.lineEnd]
      rw [hline]
      exact lexFrom_line _ _ (by simp [hb]) rest
    | false => exact lexFrom_line _ _ hb rest
  rw [hstart, hnone]
  exact iff_of_false nofun nofun

/-- Each text in a line of its own, with commas in between. -/
def lines : List (List Char) → List Char
  | [] => []
  | text :: texts => text ++ lineEnd (!texts.isEmpty) ++ lines texts

theorem lines_append {texts' : List (List Char)} (hne : texts' ≠ []) :
    lines (texts ++ texts') = (texts.flatMap fun text => text ++ lineEnd true) ++ lines texts' := by
  induction texts with
  | nil => rfl
  | cons text texts ih =>
    have hmore : (texts ++ texts').isEmpty = false := by simp [hne]
    rw [cons_append, lines, hmore, ih, flatMap_cons, append_assoc, append_assoc, append_assoc]
    rfl

inductive Lines : Prop → List (List Char) → List (List Token) → Prop
  | nil : Lines True [] []
  | cons {P Q : Prop} {text : List Char} {texts : List (List Char)} {ts : List Token} {tss : List (List Token)}
      (h : Spells P text ts) (hl : Lines Q texts tss) : Lines (P ∧ Q) (text :: texts) (ts :: tss)

theorem Lines.congr (h : Lines P texts tss) (hPQ : P ↔ Q) : Lines Q texts tss := propext hPQ ▸ h

theorem Lines.isEmpty_eq (h : Lines P texts tss) : texts.isEmpty = tss.isEmpty := by
  cases h with
  | nil => rfl
  | cons h hl => rfl

theorem Lines.reads (h : Lines P texts tss) : Reads P (lines texts) (joined tss) := by
  induction h with
  | nil => exact Reads.nil
  | @cons _ _ _ texts ts tss h hl ih =>
    have hjoined : joined (ts :: tss) = ts ++ lineEndTokens (!texts.isEmpty) ++ joined tss := by
      rw [hl.isEmpty_eq]
      cases tss with
      | nil => simp [lineEndTokens]
      | cons us tss => simp [lineEndTokens]
    rw [lines, hjoined]
    exact (h _).append ih

theorem Lines.append {texts' : List (List Char)} {tss' : List (List Token)} (h : Lines P texts tss)
    (h' : Lines Q texts' tss') : Lines (P ∧ Q) (texts ++ texts') (tss ++ tss') := by
  induction h with
  | nil => exact h'.congr (and_iff_right trivial).symm
  | cons h hl ih => exact (Lines.cons h ih).congr and_assoc.symm

theorem Lines.ite {p : Prop} [Decidable p] (h : p → Lines P texts tss) :
    Lines (p → P) (if p then texts else []) (if p then tss else []) := by
  split
  · rename_i hp
    exact (h hp).congr (imp_iff_right hp).symm
  · rename_i hp
    exact Lines.nil.congr (iff_of_true trivial fun h => absurd h hp)

theorem Lines.map {α : Type*} {l : List α} {P : α → Prop} {text : α → List Char} {ts : α → List Token}
    (h : ∀ x ∈ l, Spells (P x) (text x) (ts x)) : Lines (∀ x ∈ l, P x) (l.map text) (l.map ts) := by
  induction l with
  | nil => exact Lines.nil.congr (iff_of_true trivial nofun)
  | cons x l ih =>
    obtain ⟨hx, hl⟩ := forall_mem_cons.mp h
    exact (Lines.cons hx (ih hl)).congr forall_mem_cons.symm

/-! ## Objects and arrays -/

def object (indent : ℕ) (texts : List (List Char)) : List Char :=
  '\x7b' :: '\n' :: (lines texts ++ (replicate indent ' ' ++ ['\x7d']))

def array (indent : ℕ) (texts : List (List Char)) : List Char :=
  '[' :: '\n' :: (lines texts ++ (replicate indent ' ' ++ [']']))

theorem Reads.object (indent : ℕ) {ms : List (List Char × Json)} (h : Lines P texts (memberTokens ms)) :
    Reads P (object indent texts) (tokens (.obj ms)) := by
  have hclose : Reads True (replicate indent ' ' ++ ['\x7d']) [.rbrace] :=
    Reads.indent indent (Reads.cons (c := '\x7d') rfl Reads.nil)
  exact Reads.cons (c := '\x7b') rfl
    (Reads.cons (c := '\n') (s := []) rfl ((h.reads.append hclose).congr (and_iff_left trivial)))

theorem Reads.array (indent : ℕ) {vs : List Json} (h : Lines P texts (itemTokens vs)) :
    Reads P (array indent texts) (tokens (.arr vs)) := by
  have hclose : Reads True (replicate indent ' ' ++ [']']) [.rbracket] :=
    Reads.indent indent (Reads.cons (c := ']') rfl Reads.nil)
  exact Reads.cons (c := '[') rfl
    (Reads.cons (c := '\n') (s := []) rfl ((h.reads.append hclose).congr (and_iff_left trivial)))

theorem endsLine_object (indent : ℕ) (texts : List (List Char)) : EndsLine (object indent texts) :=
  ⟨['\x7b'], _, rfl, by decide⟩

theorem endsLine_array (indent : ℕ) (texts : List (List Char)) : EndsLine (array indent texts) :=
  ⟨['['], _, rfl, by decide⟩

theorem itemTokens_map (vs : List Json) : itemTokens vs = vs.map tokens := by
  induction vs with
  | nil => rfl
  | cons v vs ih => rw [itemTokens, ih, map_cons]

theorem memberTokens_map (ms : List (List Char × Json)) :
    memberTokens ms = ms.map fun m => .str m.1 :: .colon :: tokens m.2 := by
  induction ms with
  | nil => rfl
  | cons m ms ih => rw [memberTokens, ih, map_cons]

theorem memberTokens_append (ms ms' : List (List Char × Json)) :
    memberTokens (ms ++ ms') = memberTokens ms ++ memberTokens ms' := by
  rw [memberTokens_map, memberTokens_map, memberTokens_map, map_append]

theorem Lines.items {α : Type*} {l : List α} {P : α → Prop} {text : α → List Char} {json : α → Json}
    (h : ∀ x ∈ l, Spells (P x) (text x) (tokens (json x))) :
    Lines (∀ x ∈ l, P x) (l.map text) (itemTokens (l.map json)) := by
  rw [itemTokens_map, map_map]
  exact Lines.map h

theorem Lines.members {α : Type*} {l : List α} {P : α → Prop} {text name : α → List Char} {json : α → Json}
    (h : ∀ x ∈ l, Spells (P x) (text x) (.str (name x) :: .colon :: tokens (json x))) :
    Lines (∀ x ∈ l, P x) (l.map text) (memberTokens (l.map fun x => (name x, json x))) := by
  rw [memberTokens_map, map_map]
  exact Lines.map h

end Lib.Json

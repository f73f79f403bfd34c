import Mathlib.Data.Int.Notation
import Mathlib.Data.List.Basic

/-!
# JSON

A decoder for JSON in two passes: `lex` takes a text apart into tokens, `parse` makes a value of them. The members of an
object stay in their order. A number is a decimal, as it is written: its digits and the exponent.

The tokens of a value are written down by `tokens`, and these are the only ones that the parser accepts for it
(`parse_eq_some`).
-/

namespace Lib

open List

inductive Json where
  | null
  | bool (b : Bool)
  /-- `mantissa * 10 ^ exponent` -/
  | num (mantissa exponent : ℤ)
  | str (text : List Char)
  | arr (items : List Json)
  | obj (members : List (List Char × Json))

namespace Json

inductive Token where
  | lbrace | rbrace | lbracket | rbracket | colon | comma
  | null
  | bool (b : Bool)
  | num (mantissa exponent : ℤ)
  | str (text : List Char)
deriving DecidableEq

/-! ## The tokens of a value -/

def joined (tss : List (List Token)) : List Token := [Token.comma].intercalate tss

mutual

def tokens : Json → List Token
  | .null => [.null]
  | .bool b => [.bool b]
  | .num m e => [.num m e]
  | .str s => [.str s]
  | .arr vs => .lbracket :: (joined (itemTokens vs) ++ [.rbracket])
  | .obj ms => .lbrace :: (joined (memberTokens ms) ++ [.rbrace])

def itemTokens : List Json → List (List Token)
  | [] => []
  | v :: vs => tokens v :: itemTokens vs

def memberTokens : List (List Char × Json) → List (List Token)
  | [] => []
  | (k, v) :: ms => (.str k :: .colon :: tokens v) :: memberTokens ms

end

@[simp] theorem joined_nil : joined [] = [] := rfl

@[simp] theorem joined_singleton (ts : List Token) : joined [ts] = ts := by simp [joined]

@[simp] theorem joined_cons_cons (ts us : List Token) (tss : List (List Token)) :
    joined (ts :: us :: tss) = ts ++ .comma :: joined (us :: tss) := by
  simp [joined, intercalate]

theorem joined_cons {tss : List (List Token)} (ts : List Token) (hne : tss ≠ []) :
    joined (ts :: tss) = ts ++ .comma :: joined tss := by
  obtain ⟨us, tss, rfl⟩ := exists_cons_of_ne_nil hne
  exact joined_cons_cons ts us tss

theorem itemTokens_ne_nil {vs : List Json} (hne : vs ≠ []) : itemTokens vs ≠ [] := by
  obtain ⟨v, vs, rfl⟩ := exists_cons_of_ne_nil hne
  exact cons_ne_nil _ _

theorem memberTokens_ne_nil {ms : List (List Char × Json)} (hne : ms ≠ []) : memberTokens ms ≠ [] := by
  obtain ⟨m, ms, rfl⟩ := exists_cons_of_ne_nil hne
  exact cons_ne_nil _ _

theorem head?_tokens (v : Json) (ts : List Token) :
    (tokens v ++ ts).head? ≠ some .rbracket ∧ (tokens v ++ ts).head? ≠ some .rbrace := by
  cases v with
  | _ => exact ⟨nofun, nofun⟩

/-! ## The parser -/

mutual

/-- A value, and what is left. Every call goes on with less fuel; the number of tokens is enough. -/
def value : ℕ → List Token → Option (Json × List Token)
  | _ + 1, .null :: ts => some (.null, ts)
  | _ + 1, .bool b :: ts => some (.bool b, ts)
  | _ + 1, .num m e :: ts => some (.num m e, ts)
  | _ + 1, .str s :: ts => some (.str s, ts)
  | n + 1, .lbracket :: ts =>
    if ts.head? = some .rbracket then some (.arr [], ts.tail) else (items n ts).map fun (vs, ts) => (.arr vs, ts)
  | n + 1, .lbrace :: ts =>
    if ts.head? = some .rbrace then some (.obj [], ts.tail) else (members n ts).map fun (ms, ts) => (.obj ms, ts)
  | _, _ => none

/-- One value or more, up to the closing bracket. -/
def items : ℕ → List Token → Option (List Json × List Token)
  | 0, _ => none
  | n + 1, ts =>
    match value n ts with
    | some (v, .rbracket :: ts) => some ([v], ts)
    | some (v, .comma :: ts) => (items n ts).map fun (vs, ts) => (v :: vs, ts)
    | _ => none

/-- One member or more, up to the closing brace. -/
def members : ℕ → List Token → Option (List (List Char × Json) × List Token)
  | n + 1, .str k :: .colon :: ts =>
    match value n ts with
    | some (v, .rbrace :: ts) => some ([(k, v)], ts)
    | some (v, .comma :: ts) => (members n ts).map fun (ms, ts) => ((k, v) :: ms, ts)
    | _ => none
  | _, _ => none

end

def parse (ts : List Token) : Option Json :=
  match value ts.length ts with
  | some (v, []) => some v
  | _ => none

/-- What the parser takes from the front are the tokens of what it returns. -/
structure SoundAt (n : ℕ) : Prop where
  value : ∀ {ts v rest}, value n ts = some (v, rest) → ts = tokens v ++ rest
  items : ∀ {ts vs rest}, items n ts = some (vs, rest) → vs ≠ [] ∧ ts = joined (itemTokens vs) ++ .rbracket :: rest
  members : ∀ {ts ms rest}, members n ts = some (ms, rest) →
    ms ≠ [] ∧ ts = joined (memberTokens ms) ++ .rbrace :: rest

theorem SoundAt.zero : SoundAt 0 where
  value h := by simp [Json.value] at h
  items h := by simp [Json.items] at h
  members h := by simp [Json.members] at h

theorem cons_tail_of_head? {α : Type*} {a : α} {l : List α} (h : l.head? = some a) : l = a :: l.tail := by
  cases l with
  | nil => cases h
  | cons b l =>
    cases h
    rfl

theorem SoundAt.succ {n : ℕ} (h : SoundAt n) : SoundAt (n + 1) where
  value {ts v rest} hv := by
    unfold Json.value at hv
    split at hv
    · cases hv; rfl
    · cases hv; rfl
    · cases hv; rfl
    · cases hv; rfl
    · rename_i n' ts' hn
      cases hn
      split at hv
      · rename_i hclose
        cases hv
        rw [cons_tail_of_head? hclose]
        rfl
      · obtain ⟨⟨vs, rest'⟩, hvs, he⟩ := Option.map_eq_some_iff.mp hv
        cases he
        rw [(h.items hvs).2, tokens, cons_append, append_assoc, singleton_append]
    · rename_i n' ts' hn
      cases hn
      split at hv
      · rename_i hclose
        cases hv
        rw [cons_tail_of_head? hclose]
        rfl
      · obtain ⟨⟨ms, rest'⟩, hms, he⟩ := Option.map_eq_some_iff.mp hv
        cases he
        rw [(h.members hms).2, tokens, cons_append, append_assoc, singleton_append]
    · cases hv
  items {ts vs rest} hvs := by
    unfold Json.items at hvs
    split at hvs
    · rename_i v ts' hv
      cases hvs
      rw [h.value hv]
      exact ⟨cons_ne_nil _ _, by rw [itemTokens, itemTokens, joined_singleton]⟩
    · rename_i v ts' hv
      obtain ⟨⟨vs', rest'⟩, hvs, he⟩ := Option.map_eq_some_iff.mp hvs
      cases he
      obtain ⟨hne, heq⟩ := h.items hvs
      refine ⟨cons_ne_nil _ _, ?_⟩
      rw [h.value hv, heq, itemTokens, joined_cons _ (itemTokens_ne_nil hne), append_assoc, cons_append]
    · cases hvs
  members {ts ms rest} hms := by
    unfold Json.members at hms
    split at hms
    · rename_i n' k ts' hn
      cases hn
      split at hms
      · rename_i v ts' hv
        cases hms
        rw [h.value hv]
        exact ⟨cons_ne_nil _ _, by rw [memberTokens, memberTokens, joined_singleton]; rfl⟩
      · rename_i v ts' hv
        obtain ⟨⟨ms', rest'⟩, hms, he⟩ := Option.map_eq_some_iff.mp hms
        cases he
        obtain ⟨hne, heq⟩ := h.members hms
        refine ⟨cons_ne_nil _ _, ?_⟩
        rw [h.value hv, heq, memberTokens, joined_cons _ (memberTokens_ne_nil hne), append_assoc,
          cons_append, cons_append, cons_append]
      · cases hms
    · cases hms

theorem soundAt (n : ℕ) : SoundAt n := by
  induction n with
  | zero => exact SoundAt.zero
  | succ n ih => exact ih.succ

/-- With enough fuel the parser takes the tokens of a value from the front. -/
structure CompleteAt (n : ℕ) : Prop where
  value : ∀ (v : Json) rest, (tokens v).length ≤ n → value n (tokens v ++ rest) = some (v, rest)
  items : ∀ vs rest, vs ≠ [] → (joined (itemTokens vs)).length < n →
    items n (joined (itemTokens vs) ++ .rbracket :: rest) = some (vs, rest)
  members : ∀ ms rest, ms ≠ [] → (joined (memberTokens ms)).length < n →
    members n (joined (memberTokens ms) ++ .rbrace :: rest) = some (ms, rest)

theorem tokens_ne_nil (v : Json) : tokens v ≠ [] := by
  cases v with
  | _ => exact cons_ne_nil _ _

theorem CompleteAt.zero : CompleteAt 0 where
  value v _ h := absurd (length_eq_zero_iff.mp (Nat.le_zero.mp h)) (tokens_ne_nil v)
  items _ _ _ h := absurd h (Nat.not_lt_zero _)
  members _ _ _ h := absurd h (Nat.not_lt_zero _)

theorem head?_items {vs : List Json} (hne : vs ≠ []) (ts : List Token) :
    (joined (itemTokens vs) ++ ts).head? ≠ some .rbracket := by
  cases vs with
  | nil => exact absurd rfl hne
  | cons v vs =>
    rw [itemTokens]
    cases htss : itemTokens vs with
    | nil =>
      rw [joined_singleton]
      exact (head?_tokens v ts).1
    | cons us tss =>
      rw [joined_cons_cons, append_assoc]
      exact (head?_tokens v _).1

theorem head?_members {ms : List (List Char × Json)} (hne : ms ≠ []) (ts : List Token) :
    (joined (memberTokens ms) ++ ts).head? ≠ some .rbrace := by
  cases ms with
  | nil => exact absurd rfl hne
  | cons m ms =>
    obtain ⟨k, v⟩ := m
    rw [memberTokens]
    cases htss : memberTokens ms with
    | nil =>
      exact nofun
    | cons us tss =>
      exact nofun

theorem CompleteAt.succ {n : ℕ} (h : CompleteAt n) : CompleteAt (n + 1) where
  value v rest hlen := by
    cases v with
    | null => rfl
    | bool b => rfl
    | num m e => rfl
    | str s => rfl
    | arr vs =>
      rw [tokens, length_cons, length_append, length_singleton] at hlen
      rw [tokens, cons_append, append_assoc, singleton_append, Json.value]
      cases hvs : vs with
      | nil => rfl
      | cons v vs' =>
        have hne : vs ≠ [] := hvs ▸ cons_ne_nil _ _
        rw [← hvs, if_neg (head?_items hne _), h.items vs rest hne (by omega)]
        rfl
    | obj ms =>
      rw [tokens, length_cons, length_append, length_singleton] at hlen
      rw [tokens, cons_append, append_assoc, singleton_append, Json.value]
      cases hms : ms with
      | nil => rfl
      | cons m ms' =>
        have hne : ms ≠ [] := hms ▸ cons_ne_nil _ _
        rw [← hms, if_neg (head?_members hne _), h.members ms rest hne (by omega)]
        rfl
  items vs rest hne hlen := by
    cases vs with
    | nil => exact absurd rfl hne
    | cons v vs =>
      rw [itemTokens] at hlen ⊢
      rw [Json.items]
      by_cases hvs : vs = []
      · subst hvs
        rw [itemTokens, joined_singleton] at hlen ⊢
        rw [h.value v _ (by omega)]
      · rw [joined_cons _ (itemTokens_ne_nil hvs), length_append, length_cons] at hlen
        rw [joined_cons _ (itemTokens_ne_nil hvs), append_assoc, cons_append, h.value v _ (by omega)]
        dsimp only
        rw [h.items vs rest hvs (by omega)]
        rfl
  members ms rest hne hlen := by
    cases ms with
    | nil => exact absurd rfl hne
    | cons m ms =>
      obtain ⟨k, v⟩ := m
      rw [memberTokens] at hlen ⊢
      by_cases hms : ms = []
      · subst hms
        rw [memberTokens, joined_singleton, length_cons, length_cons] at hlen
        rw [memberTokens, joined_singleton, cons_append, cons_append, Json.members, h.value v _ (by omega)]
      · rw [joined_cons _ (memberTokens_ne_nil hms), length_append, length_cons, length_cons,
          length_cons] at hlen
        rw [joined_cons _ (memberTokens_ne_nil hms), append_assoc, cons_append, cons_append,
          cons_append, Json.members, h.value v _ (by omega)]
        dsimp only
        rw [h.members ms rest hms (by omega)]
        rfl

theorem completeAt (n : ℕ) : CompleteAt n := by
  induction n with
  | zero => exact CompleteAt.zero
  | succ n ih => exact ih.succ

theorem parse_eq_some {ts : List Token} {v : Json} : parse ts = some v ↔ ts = tokens v := by
  refine ⟨fun h => ?_, fun h => ?_⟩
  · unfold parse at h
    split at h
    · rename_i hv
      cases h
      exact ((soundAt _).value hv).trans (append_nil _)
    · cases h
  · have hv := (completeAt ts.length).value v [] (h ▸ Nat.le_refl _)
    rw [append_nil, ← h] at hv
    rw [parse, hv]

/-! ## Numbers -/

def digits (text : List Char) : Option ℕ :=
  if text ≠ [] ∧ text.all Char.isDigit then some (Nat.ofDigitChars 10 text 0) else none

/-- What may follow the fraction: `e` or `E`, a sign or none, and digits. -/
def exponent : List Char → Option ℤ
  | [] => some 0
  | e :: text =>
    if e ≠ 'e' ∧ e ≠ 'E' then none
    else
      match text with
      | '-' :: text => (digits text).map fun n => -(n : ℤ)
      | '+' :: text => (digits text).map fun n => (n : ℤ)
      | text => (digits text).map fun n => (n : ℤ)

/-- The digits of the fraction, if there is one, and what is left. -/
def fraction : List Char → Option (List Char × List Char)
  | '.' :: text =>
    if text.takeWhile Char.isDigit = [] then none
    else some (text.takeWhile Char.isDigit, text.dropWhile Char.isDigit)
  | text => some ([], text)

/-- A number without its sign. The digits in front do not start with a zero, unless it is alone. -/
def unsigned (text : List Char) : Option (ℕ × ℤ) :=
  let whole := text.takeWhile Char.isDigit
  if whole = [] ∨ (whole.head? = some '0' ∧ whole ≠ ['0']) then none
  else
    (fraction (text.dropWhile Char.isDigit)).bind fun (frac, text) =>
      (exponent text).map fun e => (Nat.ofDigitChars 10 (whole ++ frac) 0, e - frac.length)

def number (text : List Char) : Option (ℤ × ℤ) :=
  if text.head? = some '-' then (unsigned text.tail).map fun (n, e) => (-(n : ℤ), e)
  else (unsigned text).map fun (n, e) => ((n : ℤ), e)

/-! ## Strings -/

/-- Where the reading of a string stands in an escape. -/
inductive Escape where
  | none
  | started
  /-- `\u`, with some of the four digits, maybe as the second half of a pair -/
  | hex (high : Option ℕ) (digits unit : ℕ)
  /-- The first half of a pair has been read -/
  | high (unit : ℕ)
  | highStarted (unit : ℕ)
deriving DecidableEq

def escaped : Char → Option Char
  | '"' => some '"'
  | '\\' => some '\\'
  | '/' => some '/'
  | 'b' => some '\x08'
  | 'f' => some '\x0c'
  | 'n' => some '\n'
  | 'r' => some '\r'
  | 't' => some '\t'
  | _ => none

def hexDigit (c : Char) : Option ℕ :=
  if c.isDigit then some (c.toNat - '0'.toNat)
  else if 'a' ≤ c ∧ c ≤ 'f' then some (c.toNat - 'a'.toNat + 10)
  else if 'A' ≤ c ∧ c ≤ 'F' then some (c.toNat - 'A'.toNat + 10)
  else none

/-- What four digits mean. A character outside the basic plane is a pair of units. -/
def unicode (read : List Char) (high : Option ℕ) (unit : ℕ) : Option (List Char × Escape) :=
  match high with
  | none =>
    if 0xD800 ≤ unit ∧ unit < 0xDC00 then some (read, .high unit)
    else if 0xDC00 ≤ unit ∧ unit < 0xE000 then none
    else some (Char.ofNat unit :: read, .none)
  | some h =>
    if 0xDC00 ≤ unit ∧ unit < 0xE000 then
      some (Char.ofNat (0x10000 + (h - 0xD800) * 0x400 + (unit - 0xDC00)) :: read, .none)
    else none

/-- One character within a string that does not close it. What has been read is in reverse order. -/
def readChar (read : List Char) : Escape → Char → Option (List Char × Escape)
  | .none, c => if c < ' ' then none else if c = '\\' then some (read, .started) else some (c :: read, .none)
  | .started, c =>
    if c = 'u' then some (read, .hex none 0 0) else (escaped c).map fun d => (d :: read, .none)
  | .hex high k unit, c =>
    (hexDigit c).bind fun d =>
      if k < 3 then some (read, .hex high (k + 1) (16 * unit + d)) else unicode read high (16 * unit + d)
  | .high unit, c => if c = '\\' then some (read, .highStarted unit) else none
  | .highStarted unit, c => if c = 'u' then some (read, .hex (some unit) 0 0) else none

/-! ## The lexer -/

inductive LexState where
  | between
  | word (read : List Char)
  | number (read : List Char)
  | string (read : List Char) (escape : Escape)
deriving DecidableEq

def isSpace (c : Char) : Bool := c = ' ' || c = '\n' || c = '\t' || c = '\r'

def isNumberChar (c : Char) : Bool := c.isDigit || c = '-' || c = '+' || c = '.' || c = 'e' || c = 'E'

def punctuation (c : Char) : Option Token :=
  match c with
  | '\x7b' => some .lbrace
  | '\x7d' => some .rbrace
  | '[' => some .lbracket
  | ']' => some .rbracket
  | ':' => some .colon
  | ',' => some .comma
  | _ => none

def literal (text : List Char) : Option Token :=
  if text = "null".toList then some .null
  else if text = "true".toList then some (.bool true)
  else if text = "false".toList then some (.bool false)
  else none

def startsNumber (c : Char) : Bool := c.isDigit || c = '-'

def begin (c : Char) : Option (LexState × List Token) :=
  if isSpace c then some (.between, [])
  else if c = '"' then some (.string [] .none, [])
  else if startsNumber c then some (.number [c], [])
  else if c.isLower then some (.word [c], [])
  else (punctuation c).map fun t => (.between, [t])

def step : LexState → Char → Option (LexState × List Token)
  | .between, c => begin c
  | .word read, c =>
    if c.isLower then some (.word (c :: read), [])
    else (literal read.reverse).bind fun t => (begin c).map fun (s, ts) => (s, t :: ts)
  | .number read, c =>
    if isNumberChar c then some (.number (c :: read), [])
    else (number read.reverse).bind fun (m, e) => (begin c).map fun (s, ts) => (s, .num m e :: ts)
  | .string read escape, c =>
    if escape = .none ∧ c = '"' then some (.between, [.str read.reverse])
    else (readChar read escape c).map fun (read, escape) => (.string read escape, [])

def finish : LexState → Option (List Token)
  | .between => some []
  | .word read => (literal read.reverse).map fun t => [t]
  | .number read => (number read.reverse).map fun (m, e) => [.num m e]
  | .string _ _ => none

def lexFrom : LexState → List Char → Option (List Token)
  | s, [] => finish s
  | s, c :: text => (step s c).bind fun (s, ts) => (lexFrom s text).map fun ts' => ts ++ ts'

def lex (text : List Char) : Option (List Token) := lexFrom .between text

def decode (text : List Char) : Option Json := (lex text).bind parse

theorem decode_eq_some {text : List Char} {v : Json} : decode text = some v ↔ lex text = some (tokens v) := by
  rw [decode, Option.bind_eq_some_iff]
  refine ⟨fun ⟨ts, hlex, hparse⟩ => ?_, fun hlex => ⟨tokens v, hlex, parse_eq_some.mpr rfl⟩⟩
  rw [hlex, parse_eq_some.mp hparse]

end Json

end Lib

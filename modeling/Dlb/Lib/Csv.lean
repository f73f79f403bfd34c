import Mathlib.Data.List.Basic

/-!
# Comma-separated values

The usual rule for a record: its fields are separated by commas, and it ends with a line break. A field is plain, without a
comma, a quote or a line break; or it is in quotes, and then a quote in it is doubled.

* `read_line`: plain fields, with commas in between, read as themselves;
* `read_quoted_field`: so does a field in quotes without a quote in it;
* `plain_of_read`, `noQuote_of_read`: no others do.
-/

namespace Lib.Csv

open List

/-- Where a reader is: at the start of a field, in a plain field, in quotes, or behind a quote in them. -/
inductive Mode where
  | start | plain | quoted | closing
deriving DecidableEq

def PlainChar (c : Char) : Prop := c ≠ ',' ∧ c ≠ '"' ∧ c ≠ '\n' ∧ c ≠ '\r'

instance (c : Char) : Decidable (PlainChar c) := inferInstanceAs (Decidable (_ ∧ _ ∧ _ ∧ _))

def Plain (text : List Char) : Prop := ∀ c ∈ text, PlainChar c

instance (text : List Char) : Decidable (Plain text) := List.decidableBAll PlainChar text

/-- The first field with a character in front of it. -/
def push (c : Char) : List (List Char) → List (List Char)
  | [] => []
  | field :: fields => (c :: field) :: fields

/-- The fields of a record that ends with the text. `none`: it is no record. -/
def read : Mode → List Char → Option (List (List Char))
  | _, [] => none
  | .quoted, c :: text => if c = '"' then read .closing text else (read .quoted text).map (push c)
  | mode, c :: text =>
    if c = ',' then (read .start text).map ([] :: ·)
    else if c = '\n' then if text = [] then some [[]] else none
    else if c = '"' then
      if mode = .start then read .quoted text
      else if mode = .closing then (read .quoted text).map (push '"')
      else none
    else if c = '\r' ∨ mode = .closing then none
    else (read .plain text).map (push c)

/-- Texts with commas in between, and a line break. -/
def line : List (List Char) → List Char
  | [] => ['\n']
  | [text] => text ++ ['\n']
  | text :: texts => text ++ ',' :: line texts

variable {mode : Mode} {c : Char} {text body rest field : List Char} {fields texts : List (List Char)}

/-! ## One character -/

theorem read_comma (hmode : mode ≠ .quoted) (text : List Char) :
    read mode (',' :: text) = (read .start text).map ([] :: ·) := by
  cases mode with
  | quoted => exact absurd rfl hmode
  | start => rfl
  | plain => rfl
  | closing => rfl

theorem read_lineBreak (hmode : mode ≠ .quoted) : read mode ['\n'] = some [[]] := by
  cases mode with
  | quoted => exact absurd rfl hmode
  | start => rfl
  | plain => rfl
  | closing => rfl

theorem read_plainChar (hmode : mode = .start ∨ mode = .plain) (hc : PlainChar c) (text : List Char) :
    read mode (c :: text) = (read .plain text).map (push c) := by
  obtain ⟨hcomma, hquote, hbreak, hreturn⟩ := hc
  have hclosing : ¬(c = '\r' ∨ mode = .closing) := by
    rintro (h | rfl)
    · exact hreturn h
    · exact hmode.elim nofun nofun
  rcases hmode with rfl | rfl
  · rw [read, if_neg hcomma, if_neg hbreak, if_neg hquote, if_neg hclosing]
    exact nofun
  · rw [read, if_neg hcomma, if_neg hbreak, if_neg hquote, if_neg hclosing]
    exact nofun

theorem read_quotedChar (hc : c ≠ '"') (text : List Char) :
    read .quoted (c :: text) = (read .quoted text).map (push c) := by
  rw [read, if_neg hc]

/-! ## Fields that read as themselves -/

theorem read_plain_field (hmode : mode = .start ∨ mode = .plain) (h : Plain text) (rest : List Char) :
    read mode (text ++ ',' :: rest) = (read .start rest).map (text :: ·) := by
  induction text generalizing mode with
  | nil => exact read_comma (by rcases hmode with rfl | rfl <;> exact nofun) rest
  | cons c text ih =>
    obtain ⟨hc, htext⟩ := forall_mem_cons.mp h
    rw [cons_append, read_plainChar hmode hc, ih (.inr rfl) htext, Option.map_map]
    rfl

theorem read_last_field (hmode : mode = .start ∨ mode = .plain) (h : Plain text) :
    read mode (text ++ ['\n']) = some [text] := by
  induction text generalizing mode with
  | nil => exact read_lineBreak (by rcases hmode with rfl | rfl <;> exact nofun)
  | cons c text ih =>
    obtain ⟨hc, htext⟩ := forall_mem_cons.mp h
    rw [cons_append, read_plainChar hmode hc, ih (.inr rfl) htext]
    rfl

theorem line_cons (hne : texts ≠ []) (text : List Char) : line (text :: texts) = text ++ ',' :: line texts := by
  cases texts with
  | nil => exact absurd rfl hne
  | cons text' texts => rfl

theorem read_line_append {front : List (List Char)} (h : ∀ text ∈ front, Plain text) (hne : texts ≠ []) :
    read .start (line (front ++ texts)) = (read .start (line texts)).map (front ++ ·) := by
  induction front with
  | nil => exact Option.map_id'.symm
  | cons text front ih =>
    obtain ⟨htext, hfront⟩ := forall_mem_cons.mp h
    rw [cons_append, line_cons (append_ne_nil_of_right_ne_nil _ hne), read_plain_field (.inl rfl) htext, ih hfront,
      Option.map_map]
    rfl

theorem read_line (hne : texts ≠ []) (h : ∀ text ∈ texts, Plain text) : read .start (line texts) = some texts := by
  induction texts with
  | nil => exact absurd rfl hne
  | cons text texts ih =>
    obtain ⟨htext, hrest⟩ := forall_mem_cons.mp h
    cases texts with
    | nil => exact read_last_field (.inl rfl) htext
    | cons text' texts =>
      rw [line_cons (cons_ne_nil _ _), read_plain_field (.inl rfl) htext, ih (cons_ne_nil _ _) hrest]
      rfl

theorem noQuote_line (h : ∀ text ∈ texts, Plain text) : '"' ∉ line texts := by
  have hplain : ∀ {text : List Char}, Plain text → '"' ∉ text := fun h hmem => (h _ hmem).2.1 rfl
  induction texts with
  | nil => decide
  | cons text texts ih =>
    obtain ⟨htext, hrest⟩ := forall_mem_cons.mp h
    cases texts with
    | nil => exact fun hmem => (mem_append.mp hmem).elim (hplain htext) (by decide)
    | cons text' texts =>
      rw [line_cons (cons_ne_nil _ _), mem_append, mem_cons]
      rintro (hmem | hmem | hmem)
      · exact hplain htext hmem
      · exact absurd hmem (by decide)
      · exact ih hrest hmem

theorem read_quoted_body (h : '"' ∉ body) (rest : List Char) :
    read .quoted (body ++ '"' :: ',' :: rest) = (read .start rest).map (body :: ·) := by
  induction body with
  | nil => rfl
  | cons c body ih =>
    obtain ⟨hc, hbody⟩ := ne_and_not_mem_of_not_mem_cons h
    rw [cons_append, read_quotedChar hc.symm, ih hbody, Option.map_map]
    rfl

theorem read_quoted_field (h : '"' ∉ body) (rest : List Char) :
    read .start ('"' :: (body ++ '"' :: ',' :: rest)) = (read .start rest).map (body :: ·) :=
  read_quoted_body h rest

theorem read_unclosed (h : '"' ∉ text) : read .quoted text = none := by
  induction text with
  | nil => rfl
  | cons c text ih =>
    obtain ⟨hc, htext⟩ := ne_and_not_mem_of_not_mem_cons h
    rw [read_quotedChar hc.symm, ih htext]
    rfl

/-! ## Fields that do not -/

def escape (c : Char) : List Char := if c = '"' then ['"', '"'] else [c]

theorem eq_of_push (h : push c fields = field :: texts) : ∃ first, fields = first :: texts ∧ field = c :: first := by
  cases fields with
  | nil => cases h
  | cons first fields =>
    obtain ⟨rfl, rfl⟩ := cons.inj h
    exact ⟨first, rfl, rfl⟩

theorem eq_of_map_push {r : Option (List (List Char))} (h : r.map (push c) = some (field :: texts)) :
    ∃ first, r = some (first :: texts) ∧ field = c :: first := by
  obtain ⟨fields, rfl, hpush⟩ := Option.map_eq_some_iff.mp h
  obtain ⟨first, rfl, rfl⟩ := eq_of_push hpush
  exact ⟨first, rfl, rfl⟩

theorem closing_cases (h : read .closing (c :: text) = some (field :: texts)) :
    field = [] ∨ ∃ first, c = '"' ∧ field = '"' :: first ∧ read .quoted text = some (first :: texts) := by
  by_cases hcomma : c = ','
  · subst hcomma
    obtain ⟨fields, -, hcons⟩ := Option.map_eq_some_iff.mp h
    exact .inl (cons.inj hcons).1.symm
  by_cases hquote : c = '"'
  · subst hquote
    obtain ⟨first, hfirst, hpush⟩ := eq_of_map_push (h : (read .quoted text).map (push '"') = some (field :: texts))
    exact .inr ⟨first, rfl, hpush, hfirst⟩
  have hclosing : c = '\r' ∨ Mode.closing = Mode.closing := .inr rfl
  rw [read, if_neg hcomma, if_neg hquote, if_pos hclosing] at h
  · split_ifs at h
    exact .inl (cons.inj (Option.some.inj h)).1.symm
  · exact nofun

theorem escaped_of_read (text : List Char) :
    (∀ field texts, read .quoted text = some (field :: texts) → ∃ rest, text = field.flatMap escape ++ '"' :: rest) ∧
      (∀ field texts, read .closing text = some (field :: texts) → field = [] ∨
        ∃ field' rest, field = '"' :: field' ∧ text = '"' :: (field'.flatMap escape ++ '"' :: rest)) := by
  induction text with
  | nil => exact ⟨nofun, nofun⟩
  | cons c text ih =>
    obtain ⟨hquoted, hclosing⟩ := ih
    refine ⟨fun field texts h => ?_, fun field texts h => ?_⟩
    · by_cases hc : c = '"'
      · subst hc
        rcases hclosing field texts h with rfl | ⟨field', rest, rfl, rfl⟩
        · exact ⟨text, rfl⟩
        · exact ⟨rest, rfl⟩
      · rw [read_quotedChar hc] at h
        obtain ⟨first, hfirst, rfl⟩ := eq_of_map_push h
        obtain ⟨rest, rfl⟩ := hquoted first texts hfirst
        refine ⟨rest, ?_⟩
        rw [flatMap_cons, escape, if_neg hc]
        rfl
    · rcases closing_cases h with rfl | ⟨first, rfl, rfl, hfirst⟩
      · exact .inl rfl
      · obtain ⟨rest, rfl⟩ := hquoted first texts hfirst
        exact .inr ⟨first, rest, rfl, rfl⟩

theorem append_ne_escaped {front tail rest : List Char} (htail : ∀ t, tail ≠ '"' :: '"' :: t) :
    ∀ k : ℕ, 1 ≤ k ∨ '"' ∈ front → front ++ tail ≠ replicate k '"' ++ (front.flatMap escape ++ '"' :: rest) := by
  induction front with
  | nil =>
    intro k hk h
    obtain ⟨k, rfl⟩ := Nat.exists_eq_add_of_le' (hk.resolve_right not_mem_nil)
    cases k with
    | zero => exact htail _ h
    | succ k => exact htail _ h
  | cons c front ih =>
    intro k hk h
    have hdoubled : replicate k '"' ++ ((c :: front).flatMap escape ++ '"' :: rest) =
        replicate k '"' ++ (escape c ++ (front.flatMap escape ++ '"' :: rest)) := by
      rw [flatMap_cons, append_assoc]
    rw [hdoubled, cons_append] at h
    cases k with
    | zero =>
      by_cases hc : c = '"'
      · rw [escape, if_pos hc] at h
        exact ih 1 (.inl (Nat.le_refl 1)) (cons.inj h).2
      · rw [escape, if_neg hc] at h
        have hmem := (mem_cons.mp (hk.resolve_left (by omega))).resolve_left (Ne.symm hc)
        exact ih 0 (.inr hmem) (cons.inj h).2
    | succ k =>
      obtain ⟨hc, hrest⟩ := cons.inj h
      rw [escape, if_pos hc] at hrest
      refine ih (k + 2) (.inl (by omega)) (hrest.trans ?_)
      rw [replicate_succ', replicate_succ', append_assoc, append_assoc]
      rfl

theorem noQuote_of_read (h : read .start ('"' :: (body ++ '"' :: ',' :: rest)) = some (body :: texts)) : '"' ∉ body := by
  intro hmem
  obtain ⟨rest', heq⟩ := (escaped_of_read (body ++ '"' :: ',' :: rest)).1 body texts h
  exact append_ne_escaped (fun t ht => absurd (cons.inj (cons.inj ht).2).1 (by decide)) 0 (.inr hmem) heq

theorem plain_of_read (hmode : mode = .start ∨ mode = .plain)
    (h : read mode (text ++ ',' :: rest) = some (text :: texts)) : Plain text := by
  induction text generalizing mode with
  | nil => exact nofun
  | cons c text ih =>
    by_cases hc : PlainChar c
    · rw [cons_append, read_plainChar hmode hc] at h
      obtain ⟨first, hfirst, hcons⟩ := eq_of_map_push h
      obtain rfl := (cons.inj hcons).2
      exact forall_mem_cons.mpr ⟨hc, ih (.inr rfl) hfirst⟩
    · exfalso
      have hnext : text ++ ',' :: rest ≠ [] := append_ne_nil_of_right_ne_nil _ (cons_ne_nil _ _)
      have hquoted : mode ≠ .quoted := by rcases hmode with rfl | rfl <;> exact nofun
      rw [cons_append, read] at h
      · split_ifs at h with hcomma hbreak hquote hstart hclosing hreturn
        · obtain ⟨fields, -, hcons⟩ := Option.map_eq_some_iff.mp h
          cases (cons.inj hcons).1
        · subst hquote
          obtain ⟨rest', heq⟩ := (escaped_of_read (text ++ ',' :: rest)).1 ('"' :: text) texts h
          exact append_ne_escaped (fun t ht => absurd (cons.inj ht).1 (by decide)) 2 (.inl (by decide)) heq
        · rcases hmode with rfl | rfl
          · cases hclosing
          · cases hclosing
        · exact hc ⟨hcomma, hquote, hbreak, fun h => hreturn (.inl h)⟩
      · exact fun hmode' => absurd hmode' hquoted

end Lib.Csv

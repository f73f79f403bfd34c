import Mathlib.Data.List.TakeWhile

/-!
# The words of a text

A text is cut into words at a delimiter `z`, as `strtok_r` does: delimiters in front of a word are skipped, and a word goes
up to the next one. `wordStarts` lists the rests of the text that start with a word. A text is empty of words, or it
starts with one (`words_induction`); at a delimiter the words of the two parts come one behind the other
(`words_append_cons`).
-/

namespace Lib

open List

/-- The characters of a text that is written out. The index of simp does not take a literal for an `ofList`. -/
theorem toList_literal (text : List Char) : (no_index (String.ofList text)).toList = text := String.toList_ofList

variable {α : Type*} [DecidableEq α] {z : α}

/-- The rests of a text that start with a word. The flag tells that a word has begun already. -/
def wordStarts (z : α) : Bool → List α → List (List α)
  | _, [] => []
  | inside, c :: text =>
    if c = z then wordStarts z false text
    else if inside then wordStarts z true text
    else (c :: text) :: wordStarts z true text

def firstWord (z : α) (text : List α) : List α := text.takeWhile (· ≠ z)

def words (z : α) (text : List α) : List (List α) := (wordStarts z false text).map (firstWord z)

theorem wordStarts_delimiter (inside : Bool) (text : List α) : wordStarts z inside (z :: text) = wordStarts z false text := by
  rw [wordStarts, if_pos rfl]

theorem wordStarts_delimiters {blanks : List α} (hblanks : ∀ c ∈ blanks, c = z) (text : List α) :
    wordStarts z false (blanks ++ text) = wordStarts z false text := by
  induction blanks with
  | nil => rfl
  | cons c blanks ih =>
    obtain ⟨rfl, hblanks⟩ := forall_mem_cons.mp hblanks
    rw [cons_append, wordStarts_delimiter]
    exact ih hblanks

theorem wordStarts_inside {word rest : List α} (hword : z ∉ word) (hrest : rest = [] ∨ ∃ text, rest = z :: text) :
    wordStarts z true (word ++ rest) = wordStarts z false rest := by
  induction word with
  | nil =>
    rcases hrest with rfl | ⟨text, rfl⟩
    · rfl
    · rw [nil_append, wordStarts_delimiter, wordStarts_delimiter]
  | cons c word ih =>
    obtain ⟨hc, hword⟩ := ne_and_not_mem_of_not_mem_cons hword
    rw [cons_append, wordStarts, if_neg (Ne.symm hc), if_pos rfl]
    exact ih hword

theorem wordStarts_word {word rest : List α} (hne : word ≠ []) (hword : z ∉ word)
    (hrest : rest = [] ∨ ∃ text, rest = z :: text) :
    wordStarts z false (word ++ rest) = (word ++ rest) :: wordStarts z false rest := by
  obtain ⟨c, word, rfl⟩ := exists_cons_of_ne_nil hne
  obtain ⟨hc, hword⟩ := ne_and_not_mem_of_not_mem_cons hword
  rw [cons_append, wordStarts, if_neg (Ne.symm hc), if_neg Bool.false_ne_true, wordStarts_inside hword hrest]

theorem firstWord_append {word rest : List α} (hword : z ∉ word) (hrest : rest = [] ∨ ∃ text, rest = z :: text) :
    firstWord z (word ++ rest) = word := by
  have hall : ∀ c ∈ word, decide (c ≠ z) = true := fun c hc => decide_eq_true fun heq => hword (heq ▸ hc)
  unfold firstWord
  rcases hrest with rfl | ⟨text, rfl⟩
  · rw [takeWhile_append_of_pos hall, takeWhile_nil, append_nil]
  · rw [takeWhile_append_of_pos hall, takeWhile_cons_of_neg (by simp), append_nil]

theorem words_induction {P : List α → Prop} (blank : ∀ blanks : List α, (∀ c ∈ blanks, c = z) → P blanks)
    (step : ∀ blanks word rest : List α, (∀ c ∈ blanks, c = z) → word ≠ [] → z ∉ word →
      (rest = [] ∨ ∃ text, rest = z :: text) → P rest → P (blanks ++ (word ++ rest))) (text : List α) : P text := by
  induction hlength : text.length using Nat.strongRecOn generalizing text with
  | ind n ih =>
    have htext : text.takeWhile (· = z) ++ text.dropWhile (· = z) = text := takeWhile_append_dropWhile
    have hblanks : ∀ c ∈ text.takeWhile (· = z), c = z := fun c hc =>
      of_decide_eq_true (mem_takeWhile_imp (p := (· = z)) hc)
    cases hstart : text.dropWhile (· = z) with
    | nil =>
      rw [hstart, append_nil] at htext
      exact htext ▸ blank _ hblanks
    | cons c start =>
      have hc : c ≠ z := by
        have hhead := head_dropWhile_not (p := (· = z)) (l := text) (hstart ▸ cons_ne_nil c start)
        simp only [hstart, head_cons] at hhead
        exact of_decide_eq_false hhead
      have hword : (c :: start).takeWhile (· ≠ z) ++ (c :: start).dropWhile (· ≠ z) = c :: start :=
        takeWhile_append_dropWhile
      have hne : (c :: start).takeWhile (· ≠ z) ≠ [] := by
        rw [takeWhile_cons_of_pos (by simpa using hc)]
        exact cons_ne_nil _ _
      have hnot : z ∉ (c :: start).takeWhile (· ≠ z) := fun hz =>
        of_decide_eq_true (mem_takeWhile_imp (p := (· ≠ z)) hz) rfl
      have hrest : (c :: start).dropWhile (· ≠ z) = [] ∨ ∃ text, (c :: start).dropWhile (· ≠ z) = z :: text := by
        cases hdrop : (c :: start).dropWhile (· ≠ z) with
        | nil => exact .inl rfl
        | cons x text =>
          have hhead := head_dropWhile_not (p := (· ≠ z)) (l := c :: start) (hdrop ▸ cons_ne_nil x text)
          simp only [hdrop, head_cons] at hhead
          exact .inr ⟨text, by rw [not_not.mp (of_decide_eq_false hhead)]⟩
      have hshorter : ((c :: start).dropWhile (· ≠ z)).length < n := by
        have hpos := length_pos_iff.mpr hne
        have hsum := congrArg length hword
        have htotal := congrArg length htext
        rw [hstart] at htotal
        rw [length_append] at hsum htotal
        omega
      rw [← htext, hstart, ← hword]
      exact step _ _ _ hblanks hne hnot hrest (ih _ hshorter _ rfl)

/-! ## Words -/

theorem words_delimiters {blanks : List α} (hblanks : ∀ c ∈ blanks, c = z) : words z blanks = [] := by
  have hstarts := wordStarts_delimiters hblanks []
  rw [append_nil] at hstarts
  rw [words, hstarts]
  rfl

theorem words_word {blanks word rest : List α} (hblanks : ∀ c ∈ blanks, c = z) (hne : word ≠ []) (hword : z ∉ word)
    (hrest : rest = [] ∨ ∃ text, rest = z :: text) : words z (blanks ++ (word ++ rest)) = word :: words z rest := by
  rw [words, wordStarts_delimiters hblanks, wordStarts_word hne hword hrest, map_cons, firstWord_append hword hrest]
  rfl

theorem words_eq_singleton {word : List α} (hne : word ≠ []) (hword : z ∉ word) : words z word = [word] := by
  have h : words z ([] ++ (word ++ [])) = word :: words z [] := words_word nofun hne hword (.inl rfl)
  rwa [append_nil, nil_append] at h

theorem words_append_cons (front text : List α) : words z (front ++ z :: text) = words z front ++ words z text := by
  induction front using words_induction (z := z) with
  | blank blanks hblanks =>
    rw [words_delimiters hblanks, words, wordStarts_delimiters hblanks, wordStarts_delimiter]
    rfl
  | step blanks word rest hblanks hne hword hrest ih =>
    rw [append_assoc, append_assoc, words_word hblanks hne hword, ih, words_word hblanks hne hword hrest,
      cons_append]
    rcases hrest with rfl | ⟨rest', rfl⟩
    · exact .inr ⟨text, rfl⟩
    · exact .inr ⟨_, rfl⟩

theorem words_eq_nil_iff {text : List α} : words z text = [] ↔ ∀ c ∈ text, c = z := by
  refine ⟨fun h => ?_, words_delimiters⟩
  induction text using words_induction (z := z) with
  | blank blanks hblanks => exact hblanks
  | step blanks word rest hblanks hne hword hrest ih =>
    rw [words_word hblanks hne hword hrest] at h
    cases h

theorem words_append_delimiters {blanks : List α} (text : List α) (hblanks : ∀ c ∈ blanks, c = z) :
    words z (text ++ blanks) = words z text := by
  cases blanks with
  | nil => rw [append_nil]
  | cons c blanks =>
    obtain ⟨rfl, hblanks⟩ := forall_mem_cons.mp hblanks
    rw [words_append_cons, words_delimiters hblanks, append_nil]

theorem of_mem_words {text word : List α} (h : word ∈ words z text) : word ≠ [] ∧ z ∉ word ∧ word <:+: text := by
  induction text using words_induction (z := z) with
  | blank blanks hblanks =>
    rw [words_delimiters hblanks] at h
    cases h
  | step blanks first rest hblanks hne hword hrest ih =>
    rw [words_word hblanks hne hword hrest] at h
    rcases mem_cons.mp h with rfl | hmem
    · exact ⟨hne, hword, blanks, rest, append_assoc _ _ _⟩
    · obtain ⟨hne', hword', front, back, heq⟩ := ih hmem
      exact ⟨hne', hword', blanks ++ first ++ front, back, by rw [← heq]; simp only [append_assoc]⟩

end Lib

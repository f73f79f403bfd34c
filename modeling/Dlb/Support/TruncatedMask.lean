import Dlb.Lib.Words
import Dlb.Support.QuotedMask

/-!
# Masks that do not fit between the quotes

What `mu_get_quoted_mask` writes of a mask whose text does not fit. The text consists of pieces, the intervals and the
commas between them (`piecesFrom`). The loop goes on after a piece that does not fit, with a comma, the next CPU or the
closing quote, so what it writes is a prefix of the whole text exactly if the buffer ends behind a piece
(`quoted_masks_agree_iff`).
-/

namespace Dlb

open List

/-! ## Texts made of pieces -/

/-- Some of the pieces at the front have this length. -/
def EndsAtPiece (pieces : List (List Char)) (room : ℕ) : Prop := ∃ front, front <+: pieces ∧ front.flatten.length = room

/-- The room is enough for all the pieces and one character, or it ends behind a piece. -/
def CutBehindPiece (pieces : List (List Char)) (room : ℕ) : Prop :=
  pieces.flatten.length < room ∨ EndsAtPiece pieces room

theorem cutBehindPiece_zero (pieces : List (List Char)) : CutBehindPiece pieces 0 := .inr ⟨[], nil_prefix, rfl⟩

theorem cutBehindPiece_nil (room : ℕ) : CutBehindPiece [] room := by
  rcases Nat.eq_zero_or_pos room with rfl | hpos
  · exact cutBehindPiece_zero []
  · exact .inl hpos

theorem cutBehindPiece_cons {piece : List Char} (hne : piece ≠ []) (pieces : List (List Char)) (room : ℕ) :
    CutBehindPiece (piece :: pieces) room ↔
      room = 0 ∨ piece.length ≤ room ∧ CutBehindPiece pieces (room - piece.length) := by
  unfold CutBehindPiece EndsAtPiece
  rw [flatten_cons, length_append]
  constructor
  · rintro (hlt | ⟨front, hfront, rfl⟩)
    · exact .inr ⟨by omega, .inl (by omega)⟩
    · cases front with
      | nil => exact .inl rfl
      | cons first front =>
        obtain ⟨rfl, hrest⟩ := cons_prefix_cons.mp hfront
        rw [flatten_cons, length_append]
        exact .inr ⟨by omega, .inr ⟨front, hrest, by omega⟩⟩
  · rintro (rfl | ⟨hle, hlt | ⟨front, hfront, heq⟩⟩)
    · exact .inr ⟨[], nil_prefix, rfl⟩
    · exact .inl (by omega)
    · refine .inr ⟨piece :: front, cons_prefix_cons.mpr ⟨rfl, hfront⟩, ?_⟩
      rw [flatten_cons, length_append, heq]
      omega

/-! ## The pieces of a mask -/

section Pieces

variable (S : System) (mask : CpuSet)

/-- The pieces of what `mu_to_str` writes from a CPU on. -/
def piecesFrom (entryMade : Bool) (cpuid : ℕ) : List (List Char) :=
  let distance := intervalDistance S mask cpuid
  let pieces := (if entryMade then [[',']] else []) ++ [element cpuid distance]
  match _h : muGetNextCpu S mask ((cpuid + distance : ℕ) : ℤ) with
  | some next => pieces ++ piecesFrom true next
  | none => pieces
termination_by S.bits - cpuid
decreasing_by
  have := muGetNextCpu_after S _h
  omega

/-- The pieces of what `mu_to_str` writes between the brackets. -/
def maskPieces : List (List Char) :=
  match muGetFirstCpu S mask with
  | some cpuid => piecesFrom S mask false cpuid
  | none => []

end Pieces

variable {S : System} {mask : CpuSet} {namelen : ℕ}

theorem piecesFrom_eq (entryMade : Bool) (cpuid : ℕ) :
    piecesFrom S mask entryMade cpuid = (if entryMade then [[',']] else []) ++
      element cpuid (intervalDistance S mask cpuid) ::
        match muGetNextCpu S mask (cpuid + intervalDistance S mask cpuid : ℕ) with
        | some next => piecesFrom S mask true next
        | none => [] := by
  rw [piecesFrom]
  split
  · rename_i next hnext
    rw [hnext, append_assoc]
    rfl
  · rename_i hnone
    rw [hnone]

theorem flatten_piecesFrom (entryMade : Bool) (cpuid : ℕ) :
    (piecesFrom S mask entryMade cpuid).flatten = elementsFrom S mask entryMade cpuid := by
  have hsep : ∀ entryMade : Bool, (if entryMade then [[',']] else [] : List (List Char)).flatten = separator entryMade := by
    intro entryMade
    cases entryMade <;> rfl
  fun_induction elementsFrom S mask entryMade cpuid with
  | case1 entryMade cpuid distance entry next hnext ih =>
    rw [piecesFrom_eq, hnext, flatten_append, hsep, flatten_cons, ih, ← append_assoc]
    rfl
  | case2 entryMade cpuid distance entry hnone =>
    rw [piecesFrom_eq, hnone, flatten_append, hsep, flatten_cons, flatten_nil, append_nil]
    rfl

theorem flatten_maskPieces : (maskPieces S mask).flatten = maskText S mask := by
  rw [maskText_eq, maskPieces]
  cases muGetFirstCpu S mask with
  | none => rfl
  | some cpuid => exact flatten_piecesFrom false cpuid

theorem element_cons (cpuid distance : ℕ) : ∃ d ds, element cpuid distance = d :: ds ∧ d.isDigit := by
  obtain ⟨d, ds, heq, hdigit⟩ := decimal_cons cpuid
  unfold element
  rw [heq]
  split_ifs
  · exact ⟨d, ds, rfl, hdigit⟩
  · exact ⟨d, _, rfl, hdigit⟩
  · exact ⟨d, _, rfl, hdigit⟩

/-! ## The loop -/

def closeQuote (namelen : ℕ) (str : List Char) : List Char := if str.length + 1 < namelen then str ++ ['"'] else str

theorem closeQuote_append (namelen : ℕ) (str : List Char) : ∃ rest, closeQuote namelen str = str ++ rest := by
  unfold closeQuote
  split
  · exact ⟨_, rfl⟩
  · exact ⟨[], (append_nil str).symm⟩

theorem addSeparator_of_full {str : List Char} (hfull : namelen ≤ str.length + 1) (entryMade : Bool) :
    addSeparator namelen str entryMade = str := if_neg fun h => by omega

theorem closeQuote_quotedFrom_full {str : List Char} {entryMade : Bool} {cpuid : ℕ} (hfull : namelen ≤ str.length + 1) :
    closeQuote namelen (quotedFrom S mask namelen str entryMade cpuid) = str := by
  have hsame := addSeparator_of_full hfull
  have hlong : ∀ cpuid, ¬str.length + (element cpuid (intervalDistance S mask cpuid)).length < namelen := by
    intro cpuid h
    obtain ⟨d, ds, heq, -⟩ := element_cons cpuid (intervalDistance S mask cpuid)
    rw [heq, length_cons] at h
    omega
  have hloop : quotedFrom S mask namelen str entryMade cpuid = str := by
    fun_induction quotedFrom S mask namelen str entryMade cpuid with
    | case1 str entryMade cpuid distance entry str' hfits next hcpu ih => exact absurd (hsame entryMade ▸ hfits) (hlong cpuid)
    | case2 str entryMade cpuid distance entry str' hfits hcpu => exact absurd (hsame entryMade ▸ hfits) (hlong cpuid)
    | case3 str entryMade cpuid distance entry str' hfits next hcpu ih =>
      have hstr : str' = str := hsame entryMade
      rw [hstr] at ih ⊢
      exact ih hfull hsame hlong
    | case4 str entryMade cpuid distance entry str' hfits hcpu => exact hsame entryMade
  rw [hloop]
  exact if_neg (by omega)

theorem quotedFrom_comma {str : List Char} {cpuid : ℕ} (hroom : str.length + 1 < namelen) :
    ∃ rest, quotedFrom S mask namelen str true cpuid = str ++ ',' :: rest := by
  have hcomma : addSeparator namelen str true = str ++ [','] := if_pos ⟨rfl, hroom⟩
  rw [quotedFrom, hcomma]
  split
  · split
    · obtain ⟨body, hbody, -⟩ := @quotedFrom_extends S mask namelen
        (str ++ [','] ++ element cpuid (intervalDistance S mask cpuid)) true _
      exact ⟨element cpuid (intervalDistance S mask cpuid) ++ body, by rw [hbody]; simp⟩
    · exact ⟨element cpuid (intervalDistance S mask cpuid), by simp⟩
  · split
    · obtain ⟨body, hbody, -⟩ := @quotedFrom_extends S mask namelen (str ++ [',']) true _
      exact ⟨body, by rw [hbody]; simp⟩
    · exact ⟨[], rfl⟩

theorem cutBehindPiece_separator (entryMade : Bool) (pieces : List (List Char)) {room : ℕ} (hroom : 0 < room) :
    CutBehindPiece ((if entryMade then [[',']] else []) ++ pieces) room ↔
      CutBehindPiece pieces (room - (separator entryMade).length) := by
  cases entryMade with
  | false => rfl
  | true =>
    rw [if_pos rfl, singleton_append, cutBehindPiece_cons (cons_ne_nil _ _), or_iff_right hroom.ne',
      and_iff_right]
    · rfl
    · exact hroom

theorem element_ne_nil (cpuid distance : ℕ) : element cpuid distance ≠ [] := by
  obtain ⟨d, ds, heq, -⟩ := element_cons cpuid distance
  exact heq ▸ cons_ne_nil d ds

section Round

variable {str : List Char} (hroom : str.length + 1 < namelen) (entryMade : Bool) (cpuid : ℕ)
include hroom

theorem addSeparator_of_room : addSeparator namelen str entryMade = str ++ separator entryMade := by
  refine addSeparator_of_fits ?_
  cases entryMade with
  | true => exact hroom
  | false => exact (Nat.lt_succ_self _).trans hroom

theorem round_text : str ++ (elementsFrom S mask entryMade cpuid ++ ['"']) =
    addSeparator namelen str entryMade ++ (element cpuid (intervalDistance S mask cpuid) ++
      ((match muGetNextCpu S mask (cpuid + intervalDistance S mask cpuid : ℕ) with
        | some next => elementsFrom S mask true next
        | none => []) ++ ['"'])) := by
  rw [addSeparator_of_room hroom, elementsFrom_separator]
  cases muGetNextCpu S mask (cpuid + intervalDistance S mask cpuid : ℕ) with
  | none => simp only [append_assoc]
  | some next => simp only [append_assoc]

theorem round_pieces : CutBehindPiece (piecesFrom S mask entryMade cpuid) (namelen - 1 - str.length) ↔
    CutBehindPiece (element cpuid (intervalDistance S mask cpuid) ::
      (match muGetNextCpu S mask (cpuid + intervalDistance S mask cpuid : ℕ) with
        | some next => piecesFrom S mask true next
        | none => [])) (namelen - 1 - (addSeparator namelen str entryMade).length) := by
  rw [addSeparator_of_room hroom, piecesFrom_eq, cutBehindPiece_separator _ _ (by omega), length_append, Nat.sub_add_eq]

end Round

theorem skipped_iff {str' written rest entry : List Char} {pieces : List (List Char)} (hentry : ∃ d ds, entry = d :: ds ∧ d.isDigit)
    (hskip : ¬str'.length + entry.length < namelen)
    (hfull : namelen ≤ str'.length + 1 → written = str')
    (hgoesOn : str'.length + 1 < namelen →
      ∃ c rest, ¬c.isDigit ∧ written = str' ++ c :: rest) :
    written <+: str' ++ (entry ++ rest) ↔
      CutBehindPiece (entry :: pieces) (namelen - 1 - str'.length) := by
  obtain ⟨d, ds, rfl, hdigit⟩ := hentry
  rw [cutBehindPiece_cons (cons_ne_nil d ds)]
  rcases Nat.lt_or_ge (str'.length + 1) namelen with hroom' | hroom'
  · obtain ⟨c, rest', hc, heq⟩ := hgoesOn hroom'
    refine iff_of_false ?_ (not_or.mpr ⟨by omega, fun h => hskip (by omega)⟩)
    rw [heq, prefix_append_right_inj, cons_append, cons_prefix_cons]
    rintro ⟨rfl, -⟩
    exact hc hdigit
  · rw [hfull hroom']
    exact iff_of_true (prefix_append _ _) (.inl (by omega))

theorem length_le_addSeparator (namelen : ℕ) (str : List Char) (entryMade : Bool) :
    str.length ≤ (addSeparator namelen str entryMade).length := by
  obtain ⟨body, hbody, -⟩ := addSeparator_prefix namelen str entryMade
  rw [hbody, length_append]
  exact Nat.le_add_right _ _

theorem closeQuote_quotedFrom_iff {str : List Char} {entryMade : Bool} {cpuid : ℕ} (hstr : str.length < namelen) :
    closeQuote namelen (quotedFrom S mask namelen str entryMade cpuid) <+:
        str ++ (elementsFrom S mask entryMade cpuid ++ ['"']) ↔
      CutBehindPiece (piecesFrom S mask entryMade cpuid) (namelen - 1 - str.length) := by
  fun_induction quotedFrom S mask namelen str entryMade cpuid with
  | case1 str entryMade cpuid distance entry str' hfits next hcpu ih =>
    have hne : entry ≠ [] := element_ne_nil cpuid distance
    have hpos := length_pos_iff.mpr hne
    have hle : str.length ≤ str'.length := length_le_addSeparator namelen str entryMade
    have hroom : str.length + 1 < namelen := by omega
    have hlength : (str' ++ entry).length = str'.length + entry.length := length_append
    rw [round_text hroom, round_pieces hroom, hcpu]
    have hcut : CutBehindPiece (entry :: piecesFrom S mask true next) (namelen - 1 - str'.length) ↔
        CutBehindPiece (piecesFrom S mask true next) (namelen - 1 - (str' ++ entry).length) := by
      rw [cutBehindPiece_cons hne, or_iff_right (by omega), and_iff_right (by omega), hlength, Nat.sub_sub _ _ entry.length]
    rw [← append_assoc]
    exact (ih (hlength ▸ hfits)).trans hcut.symm
  | case2 str entryMade cpuid distance entry str' hfits hcpu =>
    have hne : entry ≠ [] := element_ne_nil cpuid distance
    have hpos := length_pos_iff.mpr hne
    have hle : str.length ≤ str'.length := length_le_addSeparator namelen str entryMade
    have hroom : str.length + 1 < namelen := by omega
    rw [round_text hroom, round_pieces hroom, hcpu]
    have hcut : CutBehindPiece [entry] (namelen - 1 - str'.length) :=
      (cutBehindPiece_cons hne _ _).mpr (.inr ⟨by omega, cutBehindPiece_nil _⟩)
    refine iff_of_true ?_ hcut
    rw [nil_append, ← append_assoc]
    unfold closeQuote
    split
    · exact prefix_rfl
    · exact prefix_append _ _
  | case3 str entryMade cpuid distance entry str' hfits next hcpu ih =>
    rcases Nat.lt_or_ge (str.length + 1) namelen with hroom | hfull
    · rw [round_text hroom, round_pieces hroom]
      refine skipped_iff (element_cons _ _) hfits closeQuote_quotedFrom_full fun hroom' => ?_
      obtain ⟨rest, hrest⟩ := @quotedFrom_comma S mask namelen str' next hroom'
      obtain ⟨rest', hclosed⟩ := closeQuote_append namelen (quotedFrom S mask namelen str' true next)
      exact ⟨',', rest ++ rest', by decide, by rw [hclosed, hrest, append_assoc]; rfl⟩
    · have hsame : str' = str := addSeparator_of_full hfull entryMade
      rw [hsame, closeQuote_quotedFrom_full hfull, show namelen - 1 - str.length = 0 by omega]
      exact iff_of_true (prefix_append _ _) (cutBehindPiece_zero _)
  | case4 str entryMade cpuid distance entry str' hfits hcpu =>
    rcases Nat.lt_or_ge (str.length + 1) namelen with hroom | hfull
    · rw [round_text hroom, round_pieces hroom]
      exact skipped_iff (element_cons _ _) hfits (fun hfull : namelen ≤ str'.length + 1 => if_neg (by omega)) fun hroom' =>
        ⟨'"', [], by decide, if_pos hroom'⟩
    · have hsame : str' = str := addSeparator_of_full hfull entryMade
      rw [hsame, closeQuote, if_neg (by omega), show namelen - 1 - str.length = 0 by omega]
      exact iff_of_true (prefix_append _ _) (cutBehindPiece_zero _)

/-! ## The CPUs and ranges of a text -/

theorem isChain_piecesFrom (entryMade : Bool) (cpuid : ℕ) :
    List.IsChain (fun p q => p = [','] ∨ q = [',']) (piecesFrom S mask entryMade cpuid) := by
  have hcomma : ∀ next, (piecesFrom S mask true next).head? = some [','] := fun next => by
    rw [piecesFrom_eq]
    rfl
  fun_induction piecesFrom S mask entryMade cpuid with
  | case1 entryMade cpuid distance pieces next hcpu ih =>
    refine isChain_append.mpr ⟨?_, ih, fun p _ q hq => .inr ?_⟩
    · cases entryMade with
      | true => exact isChain_cons_cons.mpr ⟨.inl rfl, isChain_singleton _⟩
      | false => exact isChain_singleton _
    · rw [hcomma] at hq
      exact (Option.some.inj hq).symm
  | case2 entryMade cpuid distance pieces hcpu =>
    cases entryMade with
    | true => exact isChain_cons_cons.mpr ⟨.inl rfl, isChain_singleton _⟩
    | false => exact isChain_singleton _

theorem words_of_pieces {front pieces : List (List Char)}
    (hchain : List.IsChain (fun p q => p = [','] ∨ q = [',']) pieces) (hfront : front <+: pieces) :
    ∀ item ∈ Lib.words ',' front.flatten, item ∈ Lib.words ',' pieces.flatten := by
  obtain ⟨back, rfl⟩ := hfront
  have hborder := (isChain_append.mp hchain).2.2
  rw [flatten_append]
  cases back with
  | nil =>
    rw [flatten_nil, append_nil]
    exact fun item h => h
  | cons q back =>
    induction front using reverseRecOn with
    | nil => exact nofun
    | append_singleton front p =>
      rcases hborder p (by simp) q rfl with rfl | rfl
      · have hnone : Lib.words ',' [] = [] := rfl
        rw [flatten_append, flatten_singleton, Lib.words_append_cons, hnone, append_nil, append_assoc,
          singleton_append, Lib.words_append_cons]
        exact fun item h => mem_append_left _ h
      · rw [flatten_cons, singleton_append, Lib.words_append_cons]
        exact fun item h => mem_append_left _ h

/-! ## The whole text -/

/-- The text of `mu_to_str` with quotes instead of the brackets. -/
def quotedText (S : System) (mask : CpuSet) : List Char := '"' :: (insideBrackets (muToStr S mask) ++ ['"'])

def quotedItems (text : List Char) : List (List Char) := Lib.words ',' (text.filter (· ≠ '"'))

/-- Both printers stay in their buffers; `mu_get_quoted_mask` writes the text of `mu_to_str` if it fits, and otherwise a
prefix of it with no other CPUs and ranges. -/
structure QuotedMasksAgree (S : System) (mask : CpuSet) (namelen : ℕ) (str : List Char) : Prop where
  buffer : (muToStr S mask).length + 1 ≤ cpuSetsize * 4
  bound : (muGetQuotedMask S mask namelen str).length + 1 ≤ namelen
  whole : (quotedText S mask).length + 1 ≤ namelen → muGetQuotedMask S mask namelen str = quotedText S mask
  truncated : namelen < (quotedText S mask).length + 1 → muGetQuotedMask S mask namelen str <+: quotedText S mask ∧
    ∀ item ∈ quotedItems (muGetQuotedMask S mask namelen str), item ∈ quotedItems (quotedText S mask)

theorem quotedFrom_length {str : List Char} {entryMade : Bool} {cpuid : ℕ} (hstr : str.length < namelen) :
    (quotedFrom S mask namelen str entryMade cpuid).length < namelen := by
  have hsep : ∀ {str : List Char} (entryMade : Bool), str.length < namelen →
      (addSeparator namelen str entryMade).length < namelen := fun entryMade hstr => by
    unfold addSeparator
    split
    · rename_i h
      rw [length_append]
      exact h.2
    · exact hstr
  fun_induction quotedFrom S mask namelen str entryMade cpuid with
  | case1 str entryMade cpuid distance entry str' hfits next hcpu ih => exact ih (by rw [length_append]; exact hfits)
  | case2 str entryMade cpuid distance entry str' hfits hcpu =>
    rw [length_append]
    exact hfits
  | case3 str entryMade cpuid distance entry str' hfits next hcpu ih => exact ih (hsep entryMade hstr)
  | case4 str entryMade cpuid distance entry str' hfits hcpu => exact hsep entryMade hstr

def quotedLoop (S : System) (mask : CpuSet) (namelen : ℕ) : List Char :=
  match muGetFirstCpu S mask with
  | some cpuid => quotedFrom S mask namelen ['"'] false cpuid
  | none => ['"']

theorem muGetQuotedMask_eq (str : List Char) (hlen : 2 ≤ namelen) :
    muGetQuotedMask S mask namelen str = closeQuote namelen (quotedLoop S mask namelen) := by
  rw [muGetQuotedMask, if_neg (by omega)]
  rfl

theorem muGetQuotedMask_length (str : List Char) (hlen : 2 ≤ namelen) :
    (muGetQuotedMask S mask namelen str).length + 1 ≤ namelen := by
  have hloop : (quotedLoop S mask namelen).length < namelen := by
    unfold quotedLoop
    cases muGetFirstCpu S mask with
    | none => exact hlen
    | some cpuid => exact quotedFrom_length hlen
  rw [muGetQuotedMask_eq str hlen, closeQuote]
  split
  · rename_i hclosed
    rw [length_append]
    exact hclosed
  · exact hloop

theorem muGetQuotedMask_prefix_iff (str : List Char) (hlen : 2 ≤ namelen) :
    muGetQuotedMask S mask namelen str <+: quotedText S mask ↔ CutBehindPiece (maskPieces S mask) (namelen - 2) := by
  have htext : quotedText S mask = ['"'] ++ (maskText S mask ++ ['"']) := rfl
  rw [muGetQuotedMask_eq str hlen, htext, maskText_eq, quotedLoop, maskPieces]
  cases hfirst : muGetFirstCpu S mask with
  | none =>
    refine iff_of_true ?_ (cutBehindPiece_nil _)
    dsimp only
    unfold closeQuote
    split
    · exact prefix_rfl
    · exact prefix_append _ _
  | some cpuid => exact closeQuote_quotedFrom_iff hlen

theorem isRangeChar_maskText (hm : Fits S mask) : ∀ x ∈ maskText S mask, isRangeChar x := by
  have hfinds := muGetFirstCpu_finds S mask
  rw [maskText_eq]
  cases hfirst : muGetFirstCpu S mask with
  | none => exact nofun
  | some cpuid =>
    rw [hfirst] at hfinds
    exact mem_elementsFrom hm hfinds.1.1 false

theorem isChain_maskPieces : List.IsChain (fun p q => p = [','] ∨ q = [',']) (maskPieces S mask) := by
  unfold maskPieces
  cases muGetFirstCpu S mask with
  | none => exact isChain_nil
  | some cpuid => exact isChain_piecesFrom false cpuid

theorem quotedItems_of_range {body text : List Char} (hbody : ∀ x ∈ body, isRangeChar x)
    (htext : text = '"' :: body ∨ text = '"' :: (body ++ ['"'])) : quotedItems text = Lib.words ',' body := by
  have hkeep : body.filter (· ≠ '"') = body :=
    filter_eq_self.mpr fun x hx => decide_eq_true fun heq => absurd (heq ▸ hbody x hx) (by decide)
  unfold quotedItems
  rcases htext with rfl | rfl
  · rw [filter_cons_of_neg (by decide), hkeep]
  · rw [filter_cons_of_neg (by decide), filter_append, hkeep, filter_cons_of_neg (by decide), filter_nil,
      append_nil]

theorem length_quotedText : (quotedText S mask).length = (maskText S mask).length + 2 := by
  rw [quotedText, length_cons, length_append]
  rfl

theorem truncated_full (hm : Fits S mask) (str : List Char) (hlen : 2 ≤ namelen)
    (hlong : namelen < (quotedText S mask).length + 1) ( hprefix : muGetQuotedMask S mask namelen str <+: quotedText S mask) :
    ∃ body, (∀ x ∈ body, isRangeChar x) ∧ muGetQuotedMask S mask namelen str = '"' :: body ∧ body <+: maskText S mask ∧
      body.length = namelen - 2 := by
  have hquote : ∀ {text : List Char}, (∀ x ∈ text, isRangeChar x) → '"' ∉ text := fun h hmem =>
    absurd (h _ hmem) (by decide)
  have hbound : (muGetQuotedMask S mask namelen str).length + 1 ≤ namelen := muGetQuotedMask_length str hlen
  obtain ⟨body, hchars, ⟨hclosed, heq⟩ | ⟨hopen, heq⟩⟩ := muGetQuotedMask_cases S mask str hlen
  · rw [heq] at hprefix
    obtain ⟨-, hbody⟩ := cons_prefix_cons.mp hprefix
    rcases prefix_concat_iff.mp hbody with hsame | hinside
    · have hwhole : body = maskText S mask := append_cancel_right hsame
      rw [length_quotedText, ← hwhole] at hlong
      omega
    · exact absurd (hinside.subset (mem_append_right _ mem_cons_self)) (hquote (isRangeChar_maskText hm))
  · rw [heq] at hprefix hbound
    obtain ⟨-, hbody⟩ := cons_prefix_cons.mp hprefix
    rw [length_cons] at hbound
    rcases prefix_concat_iff.mp hbody with hsame | hinside
    · exact absurd (hsame ▸ mem_append_right _ mem_cons_self) (hquote hchars)
    · exact ⟨body, hchars, heq, hinside, by omega⟩

/-- **The two printers agree** exactly if the quoted text fits, or the buffer ends behind an interval or a comma of it. -/
theorem quoted_masks_agree_iff (hS : S.size ≤ cpuSetsize) (hm : ∀ x ∈ mask, x < S.size) (str : List Char) (hlen : 2 ≤ namelen) :
    QuotedMasksAgree S mask namelen str ↔
      (quotedText S mask).length + 1 ≤ namelen ∨ EndsAtPiece (maskPieces S mask) (namelen - 2) := by
  have hfits : Fits S mask := fun x hx => (hm x hx).trans_le S.size_le_bits
  have hbits : S.bits ≤ cpuSetsize := by
    unfold System.bits System.numUlongs cpusPerUlong
    unfold cpuSetsize at hS ⊢
    omega
  have hcut : CutBehindPiece (maskPieces S mask) (namelen - 2) ↔
      (quotedText S mask).length + 1 ≤ namelen ∨ EndsAtPiece (maskPieces S mask) (namelen - 2) := by
    rw [CutBehindPiece, flatten_maskPieces, length_quotedText]
    exact or_congr_left (by omega)
  rw [← hcut, ← muGetQuotedMask_prefix_iff str hlen]
  constructor
  · intro h
    rcases Nat.lt_or_ge namelen ((quotedText S mask).length + 1) with hlong | hshort
    · exact (h.truncated hlong).1
    · exact h.whole hshort ▸ prefix_rfl
  · intro hprefix
    refine ⟨muToStr_fits hfits hbits, muGetQuotedMask_length str hlen, fun hshort => ?_, fun hlong => ⟨ hprefix, ?_⟩⟩
    · rw [length_quotedText] at hshort
      exact muGetQuotedMask_of_fits str hshort
    · obtain ⟨body, hchars, heq, hbody, hlength⟩ := truncated_full hfits str hlen hlong hprefix
      have hpiece := (hcut.mp ((muGetQuotedMask_prefix_iff str hlen).mp hprefix)).resolve_left hlong.not_ge
      obtain ⟨front, hfront, hroom⟩ := hpiece
      have hflat : front.flatten <+: maskText S mask := by
        rw [← flatten_maskPieces]
        exact List.IsPrefix.flatten hfront
      have hsame : body = front.flatten :=
        (prefix_of_prefix_length_le hbody hflat (by omega)).eq_of_length (by omega)
      have hitems : quotedItems (quotedText S mask) = Lib.words ',' (maskText S mask) :=
        quotedItems_of_range (isRangeChar_maskText hfits) (.inr rfl)
      rw [heq, quotedItems_of_range hchars (.inl rfl), hsame, hitems, ← flatten_maskPieces]
      exact words_of_pieces isChain_maskPieces hfront

theorem maskPieces_sixCpus : maskPieces sixCpus {0, 1, 2} = [['0', '-', '2']] := by
  have hfirst : muGetFirstCpu sixCpus {0, 1, 2} = some 0 := by decide
  have hdistance : intervalDistance sixCpus {0, 1, 2} 0 = 2 := by
    have hfits : ∀ x ∈ ({0, 1, 2} : CpuSet), x < sixCpus.bits := by decide
    obtain ⟨hinside, hend⟩ := intervalDistance_spec (c := 0) hfits (by decide)
    have hlast := hinside 3 (Nat.zero_le 3)
    simp only [Finset.mem_insert, Finset.mem_singleton] at hlast hend
    omega
  have hnext : muGetNextCpu sixCpus {0, 1, 2} ((0 + 2 : ℕ) : ℤ) = none := by decide
  rw [maskPieces, hfirst]
  dsimp only
  rw [piecesFrom_eq, hdistance, hnext]
  decide

/-- Room for the range, but not for the closing quote. -/
theorem quoted_masks_agree_sixCpus : QuotedMasksAgree sixCpus {0, 1, 2} 5 [] :=
  (quoted_masks_agree_iff (by decide) (by decide) [] (by decide)).mpr
    (.inr ⟨[['0', '-', '2']], maskPieces_sixCpus ▸ prefix_rfl, rfl⟩)

/-- The range `0-2` does not fit, but a comma does. -/
theorem comma_without_range : ¬QuotedMasksAgree sixCpus {0, 1, 2} 3 [] := by
  intro h
  have hlong : 3 < (quotedText sixCpus {0, 1, 2}).length + 1 := by
    rw [length_quotedText, ← flatten_maskPieces, maskPieces_sixCpus]
    decide
  have hcut := (muGetQuotedMask_prefix_iff [] (by decide)).mp (h.truncated hlong).1
  rw [maskPieces_sixCpus, cutBehindPiece_cons (cons_ne_nil _ _)] at hcut
  exact absurd (hcut.resolve_left (by decide)).1 (by decide)

end Dlb

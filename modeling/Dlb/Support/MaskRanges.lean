import Dlb.Support.MaskDigits

/-!
# Lists of CPUs and ranges

The meaning of a text such as `0,5-7` and what `mu_parse_mask` makes of it. The loop sets the CPUs of a range only if the
last one is greater than the first one, so that a range of one CPU is dropped.

* `parseRanges_listText`: what is read.
-/

namespace Dlb

open List

/-! ## Rounds -/

/-- One round of the loop: the mask and the text that is left. -/
def rangeRound (S : System) : CpuSet × List Char → CpuSet × List Char
  | (mask, []) => (mask, [])
  | (mask, c :: cs) =>
    if c.isDigit then
      let start := min (strtoul (c :: cs) 10).1 S.size
      match (strtoul (c :: cs) 10).2 with
      | [] => (if start < S.size then insert start mask else mask, [])
      | sep :: ptr =>
        if sep = ',' ∧ start < S.size then (insert start mask, ptr)
        else if sep = '-' then
          match ptr with
          | [] => (mask, [])
          | d :: ds =>
            if d.isDigit then
              let stop := min (strtoul (d :: ds) 10).1 S.size
              (if start < stop then mask ∪ {i ∈ Finset.Icc start stop | i < S.size} else mask, (strtoul (d :: ds) 10).2)
            else (mask, ds)
        else (mask, sep :: ptr)
    else (mask, cs)

section Rounds

variable (S : System)

theorem parseRanges_nil (mask : CpuSet) : parseRanges S mask [] = mask := by rw [parseRanges]

theorem parseRanges_round (mask : CpuSet) (c : Char) (cs : List Char) : parseRanges S mask (c :: cs) =
    parseRanges S (rangeRound S (mask, c :: cs)).1 (rangeRound S (mask, c :: cs)).2 := by
  rw [parseRanges]
  by_cases hc : c.isDigit = true
  · rw [dif_pos hc]
    split
    · rename_i hptr
      simp only [rangeRound, hc, if_true, hptr, parseRanges_nil]
    · rename_i sep ptr hptr
      simp only [rangeRound, hc, if_true, hptr]
      split_ifs with hsep hdash
      · rfl
      · cases ptr with
        | nil => exact (parseRanges_nil S mask).symm
        | cons d ds =>
          dsimp only
          split_ifs <;> rfl
      · rfl
  · rw [dif_neg hc]
    simp only [rangeRound, hc]
    rfl

theorem rangeRound_shorter (mask : CpuSet) (c : Char) (cs : List Char) :
    (rangeRound S (mask, c :: cs)).2.length ≤ cs.length := by
  rw [rangeRound]
  split_ifs with hc
  · have hshort := strtoul_length cs hc
    generalize (strtoul (c :: cs) 10).2 = rest at hshort ⊢
    cases rest with
    | nil => exact Nat.zero_le _
    | cons sep ptr =>
      rw [length_cons] at hshort
      dsimp only
      split_ifs with hsep hdash
      · exact Nat.le_of_succ_le hshort
      · cases ptr with
        | nil => exact Nat.zero_le _
        | cons d ds =>
          rw [length_cons] at hshort
          dsimp only
          by_cases hd : d.isDigit = true
          · rw [if_pos hd]
            exact (strtoul_length ds hd).trans (by omega)
          · rw [if_neg hd]
            dsimp only
            omega
      · exact hshort
  · exact le_rfl

theorem rangeRound_iterate {n : ℕ} {str : List Char} (h : str.length ≤ n) (mask : CpuSet) :
    (rangeRound S)^[n] (mask, str) = (parseRanges S mask str, []) := by
  induction n generalizing mask str with
  | zero =>
    rw [length_eq_zero_iff.mp (Nat.le_zero.mp h), parseRanges]
    rfl
  | succ n ih =>
    cases str with
    | nil =>
      have hempty : ([] : List Char).length ≤ n := Nat.zero_le n
      exact ih hempty mask
    | cons c cs =>
      rw [parseRanges_round]
      exact ih ((rangeRound_shorter S mask c cs).trans (Nat.le_of_succ_le_succ h)) _

end Rounds

/-! ## Items -/

/-- An item of a list: a number or a range, in decimal digits. -/
inductive CpuItem where
  | number (a : List Char)
  | range (a b : List Char)

/-- Decimal digits of a number that fits in an `unsigned long`. -/
def IsNumber (a : List Char) : Prop := a ≠ [] ∧ (∀ c ∈ a, c.isDigit) ∧ numberOf 10 a < 2 ^ 64

namespace CpuItem

def Valid : CpuItem → Prop
  | number a => IsNumber a
  | range a b => IsNumber a ∧ IsNumber b ∧ numberOf 10 a ≤ numberOf 10 b

def text : CpuItem → List Char
  | number a => a
  | range a b => a ++ '-' :: b

def Denotes (i : ℕ) : CpuItem → Prop
  | number a => i = numberOf 10 a
  | range a b => numberOf 10 a ≤ i ∧ i ≤ numberOf 10 b

def IsOneCpu : CpuItem → Prop
  | number _ => False
  | range a b => numberOf 10 a = numberOf 10 b

instance (i : ℕ) : (item : CpuItem) → Decidable (item.Denotes i)
  | number a => inferInstanceAs (Decidable (i = numberOf 10 a))
  | range a b => inferInstanceAs (Decidable (numberOf 10 a ≤ i ∧ i ≤ numberOf 10 b))

instance : (item : CpuItem) → Decidable item.IsOneCpu
  | number _ => inferInstanceAs (Decidable False)
  | range a b => inferInstanceAs (Decidable (numberOf 10 a = numberOf 10 b))

end CpuItem

def listText : List CpuItem → List Char
  | [] => []
  | [item] => item.text
  | item :: item' :: items => item.text ++ ',' :: listText (item' :: items)

/-- The CPU ids below the system size that a list denotes. -/
def denoted (S : System) (items : List CpuItem) : CpuSet := {i ∈ Finset.range S.size | ∃ item ∈ items, item.Denotes i}

def CpuItem.read (S : System) (item : CpuItem) : CpuSet :=
  {i ∈ Finset.range S.size | item.Denotes i ∧ ¬item.IsOneCpu}

section Items

variable {S : System}

theorem strtoul_number {a : List Char} (ha : IsNumber a) {rest : List Char} (hrest : NoDigit rest) :
    strtoul (a ++ rest) 10 = (numberOf 10 a, rest) := by
  have hall : ∀ d ∈ a, isDigitOf 10 d := fun d hd => isDigitOf_ten.trans (ha.2.1 d hd)
  have hnone : rest.takeWhile (isDigitOf 10) = [] ∧ rest.dropWhile (isDigitOf 10) = rest := by
    cases rest with
    | nil => exact ⟨rfl, rfl⟩
    | cons d ds =>
      have hd : ¬isDigitOf 10 d := isDigitOf_ten ▸ hrest d rfl
      exact ⟨takeWhile_cons_of_neg hd, dropWhile_cons_of_neg hd⟩
  have hlt := ha.2.2
  unfold strtoul
  rw [takeWhile_append_of_pos hall, dropWhile_append_of_pos hall, hnone.1, hnone.2, append_nil]
  refine Prod.ext ?_ rfl
  change min (numberOf 10 a) (2 ^ 64 - 1) = numberOf 10 a
  omega

/-- The text goes on with the next item or ends. -/
def EndsItem (rest : List Char) : Prop := rest = [] ∨ ∃ r, rest = ',' :: r

theorem EndsItem.noDigit {rest : List Char} (h : EndsItem rest) : NoDigit rest := by
  rcases h with rfl | ⟨r, rfl⟩
  · exact nofun
  · rintro d ⟨⟩
    decide

theorem mem_read {item : CpuItem} {i : ℕ} : i ∈ item.read S ↔ i < S.size ∧ item.Denotes i ∧ ¬item.IsOneCpu := by
  rw [CpuItem.read, Finset.mem_filter, Finset.mem_range]

theorem union_read_number (m : CpuSet) (a : List Char) : m ∪ (CpuItem.number a).read S =
    if min (numberOf 10 a) S.size < S.size then insert (min (numberOf 10 a) S.size) m else m := by
  by_cases ha : numberOf 10 a < S.size
  · rw [min_eq_left ha.le, if_pos ha]
    ext i
    have hi : i < S.size ∧ i = numberOf 10 a ↔ i = numberOf 10 a := and_iff_right_of_imp fun h => h ▸ ha
    simp only [Finset.mem_union, mem_read, CpuItem.Denotes, CpuItem.IsOneCpu, not_false_eq_true, and_true, hi,
      Finset.mem_insert]
    exact or_comm
  · rw [if_neg (by omega)]
    refine Finset.union_eq_left.mpr fun i hi => ?_
    obtain ⟨hlt, rfl, -⟩ := mem_read.mp hi
    exact absurd hlt ha

theorem union_read_range (m : CpuSet) {a b : List Char} (hab : numberOf 10 a ≤ numberOf 10 b) :
    m ∪ (CpuItem.range a b).read S =
      if min (numberOf 10 a) S.size < min (numberOf 10 b) S.size then
        m ∪ {i ∈ Finset.Icc (min (numberOf 10 a) S.size) (min (numberOf 10 b) S.size) | i < S.size}
      else m := by
  have hmem (i : ℕ) : i ∈ (CpuItem.range a b).read S ↔
      i < S.size ∧ (numberOf 10 a ≤ i ∧ i ≤ numberOf 10 b) ∧ numberOf 10 a ≠ numberOf 10 b := mem_read
  split_ifs with hlt
  · refine congrArg (m ∪ ·) (Finset.ext fun i => ?_)
    rw [hmem, Finset.mem_filter, Finset.mem_Icc]
    omega
  · refine Finset.union_eq_left.mpr fun i hi => ?_
    have h := (hmem i).mp hi
    omega

theorem parseRanges_item {item : CpuItem} (h : item.Valid) {m : CpuSet} {rest : List Char} (hrest : EndsItem rest) :
    parseRanges S m (item.text ++ rest) = parseRanges S (m ∪ item.read S) rest := by
  cases item with
  | number a =>
    have hnum := strtoul_number h hrest.noDigit
    obtain ⟨d, ds, rfl⟩ := exists_cons_of_ne_nil h.1
    have hd : d.isDigit = true := h.2.1 d mem_cons_self
    rw [CpuItem.text, cons_append] at *
    rw [parseRanges_round, union_read_number]
    rcases hrest with rfl | ⟨r, rfl⟩
    · simp only [rangeRound, hd, if_true, hnum]
    · simp only [rangeRound, hd, if_true, hnum, true_and]
      split_ifs with hlt hdash
      · rw [parseRanges_comma]
      · exact absurd hdash (by decide)
      · rfl
  | range a b =>
    obtain ⟨ha, hb, hab⟩ := h
    have hdash : NoDigit ('-' :: (b ++ rest)) := by
      rintro x ⟨⟩
      decide
    have hnum := strtoul_number ha hdash
    have hnum' := strtoul_number hb hrest.noDigit
    obtain ⟨d, ds, rfl⟩ := exists_cons_of_ne_nil ha.1
    obtain ⟨e, es, rfl⟩ := exists_cons_of_ne_nil hb.1
    have hd : d.isDigit = true := ha.2.1 d mem_cons_self
    have he : e.isDigit = true := hb.2.1 e mem_cons_self
    have hno : ¬('-' = ',' ∧ min (numberOf 10 (d :: ds)) S.size < S.size) := fun h => absurd h.1 (by decide)
    rw [CpuItem.text, append_assoc, cons_append, cons_append, cons_append, parseRanges_round,
      union_read_range m hab]
    rw [cons_append] at hnum hnum'
    rw [cons_append] at hnum
    simp only [rangeRound, hd, he, if_true, hnum, hno, if_false, hnum']

theorem listText_cons (item : CpuItem) (items : List CpuItem) :
    ∃ rest, EndsItem rest ∧ listText (item :: items) = item.text ++ rest ∧
      ∀ m, parseRanges S m rest = parseRanges S m (listText items) := by
  cases items with
  | nil => exact ⟨[], .inl rfl, (append_nil _).symm, fun _ => rfl⟩
  | cons item' items => exact ⟨_, .inr ⟨_, rfl⟩, rfl, fun _ => parseRanges_comma _⟩

theorem parseRanges_listText {items : List CpuItem} (h : ∀ item ∈ items, item.Valid) (m : CpuSet) :
    parseRanges S m (listText items) =
      m ∪ {i ∈ Finset.range S.size | ∃ item ∈ items, item.Denotes i ∧ ¬item.IsOneCpu} := by
  induction items generalizing m with
  | nil => simp [listText, parseRanges_nil]
  | cons item items ih =>
    obtain ⟨rest, hends, htext, hrest⟩ := listText_cons (S := S) item items
    rw [htext, parseRanges_item (h item mem_cons_self) hends, hrest,
      ih fun x hx => h x (mem_cons_of_mem _ hx), Finset.union_assoc]
    refine congrArg (m ∪ ·) (Finset.ext fun i => ?_)
    simp only [CpuItem.read, Finset.mem_union, Finset.mem_filter, exists_mem_cons_iff, and_or_left]

theorem isRangeChar_number {a : List Char} (ha : IsNumber a) {x : Char} (hx : x ∈ a) : isRangeChar x := by
  simp [isRangeChar, ha.2.1 x hx]

theorem mem_listText {items : List CpuItem} (h : ∀ item ∈ items, item.Valid) : ∀ x ∈ listText items, isRangeChar x := by
  have hitem (item : CpuItem) (hv : item.Valid) : ∀ x ∈ item.text, isRangeChar x := by
    intro x hx
    cases item with
    | number a => exact isRangeChar_number hv hx
    | range a b =>
      rcases mem_append.mp hx with hx | hx
      · exact isRangeChar_number hv.1 hx
      · rcases mem_cons.mp hx with rfl | hx
        · decide
        · exact isRangeChar_number hv.2.1 hx
  induction items with
  | nil => exact nofun
  | cons item items ih =>
    intro x hx
    cases items with
    | nil => exact hitem item (h item mem_cons_self) x hx
    | cons item' items =>
      rcases mem_append.mp hx with hx | hx
      · exact hitem item (h item mem_cons_self) x hx
      · rcases mem_cons.mp hx with rfl | hx
        · decide
        · exact ih (fun y hy => h y (mem_cons_of_mem _ hy)) x hx

end Items

/-- **The meaning of a list of CPUs.** The loop ends on every text. What is read of a list is what it denotes if and
only if every CPU of the system that is the only one of a range is also denoted by another kind of item. -/
theorem muParseMask_list_iff (S : System) (items : List CpuItem) (h : ∀ item ∈ items, item.Valid)
    (hlen : (listText items).length ≤ cpuSetsize) (result : CpuSet) :
    ((∀ mask str, ∃ n, (rangeRound S)^[n] (mask, str) = (parseRanges S mask str, [])) ∧
      muParseMask S (listText items) result = denoted S items) ↔
      ∀ i < S.size, (∃ item ∈ items, item.Denotes i ∧ item.IsOneCpu) →
        ∃ item ∈ items, item.Denotes i ∧ ¬item.IsOneCpu := by
  have hends : ∀ mask str, ∃ n, (rangeRound S)^[n] (mask, str) = (parseRanges S mask str, []) :=
    fun mask str => ⟨str.length, rangeRound_iterate S le_rfl mask⟩
  rw [and_iff_right hends, muParseMask_ranges (mem_listText h) hlen, parseRanges_listText h, Finset.empty_union, denoted,
    Finset.filter_inj']
  constructor
  · rintro heq i hi ⟨item, hmem, hdenotes, -⟩
    exact (heq (Finset.mem_range.mpr hi)).mpr ⟨item, hmem, hdenotes⟩
  · intro hcond i hi
    constructor
    · exact fun ⟨item, hmem, hdenotes, _⟩ => ⟨item, hmem, hdenotes⟩
    · rintro ⟨item, hmem, hdenotes⟩
      by_cases hone : item.IsOneCpu
      · exact hcond i (Finset.mem_range.mp hi) ⟨item, hmem, hdenotes, hone⟩
      · exact ⟨item, hmem, hdenotes, hone⟩

/-- `0,2-4,9` of six CPUs. -/
theorem muParseMask_list_sixCpus : muParseMask sixCpus "0,2-4,9".toList {5} = {0, 2, 3, 4} := by
  have h := ((muParseMask_list_iff sixCpus [.number ['0'], .range ['2'] ['4'], .number ['9']] (by
    simp [CpuItem.Valid, IsNumber, numberOf, digitValue]) (by decide) {5}).mpr (by
      simp [CpuItem.IsOneCpu, numberOf, digitValue])).2
  exact h.trans (by decide)

/-- The range `3-3` is dropped. -/
theorem one_cpu_range_dropped :
    (CpuItem.range ['3'] ['3']).Valid ∧ (listText [.range ['3'] ['3']]).length ≤ cpuSetsize ∧
      muParseMask sixCpus (listText [.range ['3'] ['3']]) ∅ ≠ denoted sixCpus [.range ['3'] ['3']] := by
  have hvalid : (CpuItem.range ['3'] ['3']).Valid := by simp [CpuItem.Valid, IsNumber, numberOf, digitValue]
  have hall : ∀ item ∈ [CpuItem.range ['3'] ['3']], item.Valid := forall_mem_singleton.mpr hvalid
  have hlen : (listText [.range ['3'] ['3']]).length ≤ cpuSetsize := by decide
  have hempty : muParseMask sixCpus (listText [.range ['3'] ['3']]) ∅ = ∅ := by
    rw [muParseMask_ranges (mem_listText hall) hlen, parseRanges_listText hall]
    decide
  refine ⟨hvalid, hlen, ?_⟩
  rw [hempty]
  decide

end Dlb

import Dlb.Support.MaskText
import Mathlib.Algebra.BigOperators.Intervals
import Mathlib.Algebra.Order.BigOperators.Group.Finset

/-!
# The text of a mask is read back

`mu_parse_mask` reads the text of `mu_to_str` back (`parseRanges_elementsFrom`), as long as it is not longer than
`CPU_SETSIZE` characters (`muParseMask_muToStr_iff`). How long it is depends on the ends of the intervals alone
(`length_muToStr`); it always fits into the buffer of `mu_to_str` (`muToStr_fits`), but not into the limit of
`mu_parse_mask`.
-/

namespace Dlb

open List

variable {S : System} {mask m : CpuSet} {c : ℕ}

/-! ## Intervals -/

theorem intervalDistance_spec (hm : Fits S mask) (hc : c ∈ mask) :
    (∀ x, c ≤ x → x ≤ c + intervalDistance S mask c → x ∈ mask) ∧ c + intervalDistance S mask c + 1 ∉ mask := by
  have hf := muGetNextUnset_finds S mask c
  unfold intervalDistance
  cases hr : muGetNextUnset S mask c with
  | some next =>
    rw [hr] at hf
    obtain ⟨⟨hnot, hlt, hbits⟩, hleast⟩ := hf
    cases next with
    | zero => omega
    | succ next =>
      rw [show c + (next - c) = next by omega]
      refine ⟨fun x h1 h2 => ?_, hnot⟩
      by_contra hx
      have hne : x ≠ c := fun he => hx (he ▸ hc)
      have := hleast x ⟨hx, by omega, by omega⟩
      omega
  | none =>
    rw [hr] at hf
    obtain ⟨last, hmem, hlast⟩ := muGetLastCpu_some hm ⟨c, hc⟩
    have hmax : ∀ x ∈ mask, x ≤ last := fun x hx => muGetLastCpu_max hlast hx (hm x hx)
    have hle := hmax c hc
    simp only [hlast, Option.getD_some]
    rw [show c + (last - c) = last by omega]
    refine ⟨fun x h1 h2 => ?_, fun h => by simpa using hmax _ h⟩
    by_contra hx
    have hne : x ≠ c := fun he => hx (he ▸ hc)
    have hbits := hm last hmem
    exact hf x ⟨hx, by omega, by omega⟩

theorem from_split (hm : Fits S mask) (hc : c ∈ mask) :
    {x ∈ mask | c ≤ x} =
      Finset.Icc c (c + intervalDistance S mask c) ∪ {x ∈ mask | c + intervalDistance S mask c < x} := by
  ext x
  have h := (intervalDistance_spec hm hc).1 x
  simp only [Finset.mem_union, Finset.mem_filter, Finset.mem_Icc]
  by_cases hx : x ≤ c + intervalDistance S mask c
  · have : ¬c + intervalDistance S mask c < x := by omega
    tauto
  · have hlt : c + intervalDistance S mask c < x := by omega
    have hle : c ≤ x := by omega
    tauto

theorem next_interval (hm : Fits S mask) {prev : ℕ} {r : Option ℕ} (hr : muGetNextCpu S mask prev = r) :
    match r with
    | some next => next ∈ mask ∧ prev < next ∧ {x ∈ mask | prev < x} = {x ∈ mask | next ≤ x}
    | none => {x ∈ mask | prev < x} = ∅ := by
  have hf := muGetNextCpu_finds S mask prev
  rw [hr] at hf
  cases r with
  | some next =>
    obtain ⟨⟨hmem, hlt, -⟩, hleast⟩ := hf
    refine ⟨hmem, hlt, Finset.filter_congr fun x hx => ⟨fun h => hleast x ⟨hx, h, hm x hx⟩, fun h => by omega⟩⟩
  | none => exact Finset.filter_eq_empty_iff.mpr fun x hx h => hf x ⟨hx, h, hm x hx⟩

theorem interval_induction (hm : Fits S mask) {motive : (c : ℕ) → c ∈ mask → Prop}
    (last : ∀ c hc, muGetNextCpu S mask (c + intervalDistance S mask c : ℕ) = none →
      {x ∈ mask | c + intervalDistance S mask c < x} = ∅ → motive c hc)
    (step : ∀ c hc next hnext, muGetNextCpu S mask (c + intervalDistance S mask c : ℕ) = some next →
      c + intervalDistance S mask c < next →
      {x ∈ mask | c + intervalDistance S mask c < x} = {x ∈ mask | next ≤ x} → motive next hnext → motive c hc)
    (c : ℕ) (hc : c ∈ mask) : motive c hc := by
  induction h : S.bits - c using Nat.strong_induction_on generalizing c with
  | _ n ih =>
    cases hr : muGetNextCpu S mask (c + intervalDistance S mask c : ℕ) with
    | none => exact last c hc hr (next_interval hm hr)
    | some next =>
      obtain ⟨hnext, hlt, hset⟩ := next_interval hm hr
      refine step c hc next hnext hr hlt hset (ih _ ?_ next hnext rfl)
      have := hm next hnext
      omega

theorem elementsFrom_eq (entryMade : Bool) (c : ℕ) :
    elementsFrom S mask entryMade c = (if entryMade then [','] else []) ++ (element c (intervalDistance S mask c) ++
      match muGetNextCpu S mask (c + intervalDistance S mask c : ℕ) with
      | some next => elementsFrom S mask true next
      | none => []) := by
  rw [elementsFrom]
  split
  · rename_i heq
    rw [heq, append_assoc]
  · rename_i heq
    rw [heq, append_nil]

/-! ## Numbers -/

theorem isDigit_of_mem_decimal {n : ℕ} {d : Char} (h : d ∈ decimal n) : d.isDigit :=
  Nat.isDigit_of_mem_toDigits (by omega) (by omega) h

theorem decimal_cons (n : ℕ) : ∃ d ds, decimal n = d :: ds ∧ d.isDigit := by
  cases h : decimal n with
  | nil => exact absurd h Nat.toDigits_ne_nil
  | cons d ds => exact ⟨d, ds, rfl, isDigit_of_mem_decimal (h ▸ mem_cons_self)⟩

/-- The text after a number does not go on with a digit. -/
def NoDigit (rest : List Char) : Prop := ∀ d ∈ rest.head?, ¬d.isDigit

theorem digits_value {l : List Char} (h : ∀ d ∈ l, d.isDigit) (n : ℕ) :
    l.foldl (fun n c => 10 * n + (digitValue c).getD 0) n = Nat.ofDigitChars 10 l n := by
  induction l generalizing n with
  | nil => simp
  | cons d l ih =>
    have hd : d.isDigit := h d mem_cons_self
    rw [foldl_cons, ih (fun x hx => h x (mem_cons_of_mem _ hx)), Nat.ofDigitChars_cons]
    simp [digitValue, hd]

theorem strtoul_decimal {n : ℕ} (hn : n < 2 ^ 64) {rest : List Char} (hrest : NoDigit rest) :
    strtoul (decimal n ++ rest) 10 = (n, rest) := by
  have hall : ∀ d ∈ decimal n, isDigitOf 10 d := fun d hd => isDigitOf_ten.trans (isDigit_of_mem_decimal hd)
  have hnone : rest.takeWhile (isDigitOf 10) = [] ∧ rest.dropWhile (isDigitOf 10) = rest := by
    cases rest with
    | nil => exact ⟨rfl, rfl⟩
    | cons d ds =>
      have hd : ¬isDigitOf 10 d := isDigitOf_ten ▸ hrest d rfl
      exact ⟨takeWhile_cons_of_neg hd, dropWhile_cons_of_neg hd⟩
  unfold strtoul
  rw [takeWhile_append_of_pos hall, dropWhile_append_of_pos hall, hnone.1, hnone.2, append_nil,
    digits_value fun d hd => isDigit_of_mem_decimal hd]
  rw [decimal, Nat.ofDigitChars_ten_toDigits]
  refine Prod.ext ?_ rfl
  dsimp only
  omega

/-! ## The parser on the parts of the text -/

theorem parseRanges_comma (rest : List Char) : parseRanges S m (',' :: rest) = parseRanges S m rest := by
  rw [parseRanges]
  simp

theorem parseRanges_single {n : ℕ} (hn : n < S.size) (hS : S.size ≤ cpuSetsize) {rest : List Char}
    (hrest : rest = [] ∨ ∃ r, rest = ',' :: r) :
    parseRanges S m (decimal n ++ rest) = parseRanges S (insert n m) rest := by
  have hno : NoDigit rest := by
    rcases hrest with rfl | ⟨r, rfl⟩
    · exact nofun
    · rintro d ⟨⟩
      decide
  have hlt : n < 2 ^ 64 := by
    unfold cpuSetsize at hS
    omega
  have hnum := strtoul_decimal hlt hno
  obtain ⟨d, ds, hdec, hd⟩ := decimal_cons n
  rw [hdec, cons_append] at hnum ⊢
  have hmin : min (strtoul (d :: (ds ++ rest)) 10).1 S.size = n := by
    rw [hnum]
    exact min_eq_left hn.le
  rw [parseRanges, dif_pos hd, hmin]
  rcases hrest with rfl | ⟨r, rfl⟩
  · split
    · dsimp only
      rw [if_pos hn, parseRanges]
    · rename_i heq
      rw [hnum] at heq
      cases heq
  · split
    · rename_i heq
      rw [hnum] at heq
      cases heq
    · rename_i heq
      rw [hnum] at heq
      cases heq
      rw [if_pos ⟨rfl, hn⟩, parseRanges_comma]

theorem parseRanges_range {a b : ℕ} (hab : a < b) (hb : b < S.size) (hS : S.size ≤ cpuSetsize) {rest : List Char}
    (hrest : NoDigit rest) :
    parseRanges S m (decimal a ++ '-' :: decimal b ++ rest) = parseRanges S (m ∪ Finset.Icc a b) rest := by
  have hlt : b < 2 ^ 64 := by
    unfold cpuSetsize at hS
    omega
  obtain ⟨d, ds, hdec, hd⟩ := decimal_cons a
  obtain ⟨e, es, hdec', he⟩ := decimal_cons b
  have hnum : strtoul (decimal a ++ '-' :: (decimal b ++ rest)) 10 = (a, '-' :: (decimal b ++ rest)) :=
    strtoul_decimal (hab.trans hlt) (by rintro x ⟨⟩; decide)
  have hnum' := strtoul_decimal hlt hrest
  rw [append_assoc, cons_append, hdec, hdec', cons_append, cons_append] at *
  have hset : {i ∈ Finset.Icc a b | i < S.size} = Finset.Icc a b :=
    Finset.filter_true_of_mem fun x hx => (Finset.mem_Icc.mp hx).2.trans_lt hb
  have hmin : min (strtoul (d :: (ds ++ '-' :: e :: (es ++ rest))) 10).1 S.size = a := by
    rw [hnum]
    exact min_eq_left (by omega)
  rw [parseRanges, dif_pos hd, hmin]
  split
  · rename_i heq
    rw [hnum] at heq
    cases heq
  · rename_i heq
    rw [hnum] at heq
    cases heq
    rw [if_neg (by simp), if_pos rfl]
    dsimp only
    rw [dif_pos he, hnum']
    rw [min_eq_left hb.le, if_pos hab, hset]

theorem parseRanges_element {n d : ℕ} (hn : n + d < S.size) (hS : S.size ≤ cpuSetsize) {rest : List Char}
    (hrest : rest = [] ∨ ∃ r, rest = ',' :: r) :
    parseRanges S m (element n d ++ rest) = parseRanges S (m ∪ Finset.Icc n (n + d)) rest := by
  unfold element
  split
  · rename_i hd
    subst hd
    rw [Nat.add_zero] at hn ⊢
    rw [parseRanges_single hn hS hrest, Finset.Icc_self, Finset.union_comm, Finset.insert_eq]
  · split
    · rename_i hd
      subst hd
      rw [append_assoc, cons_append, parseRanges_single (by omega) hS (Or.inr ⟨_, rfl⟩), parseRanges_comma,
        parseRanges_single hn hS hrest]
      congr 1
      ext x
      simp only [Finset.mem_insert, Finset.mem_union, Finset.mem_Icc]
      have : x = n + 1 ∨ x = n ↔ n ≤ x ∧ x ≤ n + 1 := by omega
      tauto
    · rename_i h0 h1
      refine parseRanges_range (by omega) hn hS ?_
      rcases hrest with rfl | ⟨r, rfl⟩
      · exact nofun
      · rintro d ⟨⟩
        decide

theorem parseRanges_elementsFrom (hm : ∀ x ∈ mask, x < S.size) (hS : S.size ≤ cpuSetsize) {c : ℕ} (hc : c ∈ mask) :
    ∀ entryMade m, parseRanges S m (elementsFrom S mask entryMade c) = m ∪ {x ∈ mask | c ≤ x} := by
  have hfits : Fits S mask := fun x hx => (hm x hx).trans_le S.size_le_bits
  have hjunk : ∀ (entryMade : Bool) m text,
      parseRanges S m ((if entryMade then [','] else []) ++ text) = parseRanges S m text := by
    intro entryMade m text
    cases entryMade with
    | false => rfl
    | true => exact parseRanges_comma text
  have hend : ∀ c ∈ mask, c + intervalDistance S mask c < S.size := fun c hc =>
    hm _ ((intervalDistance_spec hfits hc).1 _ (by omega) le_rfl)
  induction c, hc using interval_induction hfits with
  | last c hc hr hset =>
    intro entryMade m
    rw [elementsFrom_eq, hr, hjunk, parseRanges_element (hend c hc) hS (Or.inl rfl), parseRanges, from_split hfits hc,
      hset, Finset.union_empty]
  | step c hc next hnext hr hlt hset ih =>
    intro entryMade m
    have hcomma : ∃ r, elementsFrom S mask true next = ',' :: r := ⟨_, elementsFrom_eq true next⟩
    rw [elementsFrom_eq, hr, hjunk, parseRanges_element (hend c hc) hS (Or.inr hcomma), ih, from_split hfits hc, hset,
      Finset.union_assoc]

/-! ## The length of the text -/

/-- The CPUs with which an interval of the mask starts or stops. -/
def intervalEnds (mask : CpuSet) : CpuSet := {c ∈ mask | c = 0 ∨ c - 1 ∉ mask ∨ c + 1 ∉ mask}

def printedLength (cpus : CpuSet) : ℕ := ∑ c ∈ cpus, ((decimal c).length + 1)

theorem printedLength_Ico {a b k : ℕ} (hk : 0 < k) (hb : b ≤ 10 ^ k) :
    printedLength (Finset.Ico a b) ≤ (b - a) * (k + 1) := by
  rw [← Nat.card_Ico]
  refine Finset.sum_le_card_nsmul _ _ _ fun c hc => Nat.add_le_add_right ?_ 1
  exact (Nat.length_toDigits_le_iff (by decide) hk).mpr ((Finset.mem_Ico.mp hc).2.trans_le hb)

theorem card_le_printedLength {s : CpuSet} {k : ℕ} (hk : 0 < k) (hs : ∀ c ∈ s, 10 ^ k ≤ c) :
    s.card * (k + 2) ≤ printedLength s := by
  refine Finset.card_nsmul_le_sum s _ (k + 2) fun c hc => Nat.succ_le_succ ?_
  exact Nat.lt_of_not_le fun hle => (hs c hc).not_gt ((Nat.length_toDigits_le_iff (by decide) hk).mp hle)

/-- The CPUs of the largest mask one by one: 10 of one digit, 90 of two, 900 of three and 24 of four. -/
theorem printedLength_range : printedLength (Finset.range cpuSetsize) ≤ 4010 := by
  have hone := printedLength_Ico (a := 0) (b := 10) (k := 1) (by decide) (by decide)
  have htwo := printedLength_Ico (a := 10) (b := 100) (k := 2) (by decide) (by decide)
  have hthree := printedLength_Ico (a := 100) (b := 1000) (k := 3) (by decide) (by decide)
  have hfour := printedLength_Ico (a := 1000) (b := cpuSetsize) (k := 4) (by decide) (by decide)
  unfold printedLength cpuSetsize at *
  rw [Finset.range_eq_Ico, ← Finset.sum_Ico_consecutive _ (Nat.zero_le 1000) (by decide),
    ← Finset.sum_Ico_consecutive _ (Nat.zero_le 100) (by decide), ← Finset.sum_Ico_consecutive _ (Nat.zero_le 10) (by decide)]
  omega

theorem length_element (n d : ℕ) : (element n d).length + 1 = printedLength {n, n + d} := by
  unfold element printedLength
  split
  · rename_i hd
    simp [hd]
  · rename_i hd
    rw [Finset.sum_pair (by omega)]
    split
    · rename_i hd'
      subst hd'
      simp only [length_append, length_cons]
      omega
    · simp only [length_append, length_cons]
      omega

theorem intervalEnds_from (hm : Fits S mask) (hc : c ∈ mask) (hstart : c = 0 ∨ c - 1 ∉ mask) :
    {x ∈ intervalEnds mask | c ≤ x} = {c, c + intervalDistance S mask c} ∪
      {x ∈ intervalEnds mask | c + intervalDistance S mask c < x} := by
  obtain ⟨hin, hout⟩ := intervalDistance_spec hm hc
  ext x
  simp only [intervalEnds, Finset.mem_union, Finset.mem_filter, Finset.mem_insert, Finset.mem_singleton]
  constructor
  · rintro ⟨⟨hx, hends⟩, hle⟩
    by_cases hlt : c + intervalDistance S mask c < x
    · exact Or.inr ⟨⟨hx, hends⟩, hlt⟩
    · left
      by_contra hne
      have h1 : x - 1 ∈ mask := hin _ (by omega) (by omega)
      have h2 : x + 1 ∈ mask := hin _ (by omega) (by omega)
      rcases hends with h | h | h
      · omega
      · exact h h1
      · exact h h2
  · rintro ((rfl | rfl) | ⟨hx, hlt⟩)
    · exact ⟨⟨hc, hstart.imp_right Or.inl⟩, le_rfl⟩
    · exact ⟨⟨hin _ (by omega) le_rfl, Or.inr (Or.inr hout)⟩, by omega⟩
    · exact ⟨hx, by omega⟩

theorem length_elementsFrom (hm : Fits S mask) (hc : c ∈ mask) :
    (c = 0 ∨ c - 1 ∉ mask) → ∀ entryMade : Bool, (elementsFrom S mask entryMade c).length + (if entryMade then 0 else 1) =
      printedLength {x ∈ intervalEnds mask | c ≤ x} := by
  have hfirst : ∀ (entryMade : Bool) (text : List Char),
      ((if entryMade then [','] else []) ++ text).length + (if entryMade then 0 else 1) = text.length + 1 := by
    intro entryMade text
    cases entryMade <;> simp
  have hsum : ∀ n d (rest : CpuSet), (∀ x ∈ rest, n + d < x) →
      printedLength ({n, n + d} ∪ rest) = (element n d).length + 1 + printedLength rest := by
    intro n d rest hrest
    rw [length_element, printedLength, Finset.sum_union]
    · rfl
    · refine Finset.disjoint_left.mpr fun x hx hr => ?_
      have := hrest x hr
      simp only [Finset.mem_insert, Finset.mem_singleton] at hx
      omega
  have hafter : ∀ n, ∀ x ∈ ({x ∈ intervalEnds mask | n < x} : CpuSet), n < x := fun n x hx => (Finset.mem_filter.mp hx).2
  induction c, hc using interval_induction hm with
  | last c hc hr hset =>
    intro hstart entryMade
    have hnone : {x ∈ intervalEnds mask | c + intervalDistance S mask c < x} = ∅ :=
      Finset.filter_eq_empty_iff.mpr fun x hx h =>
        Finset.filter_eq_empty_iff.mp hset (Finset.mem_filter.mp hx).1 h
    rw [elementsFrom_eq, hr, hfirst, intervalEnds_from hm hc hstart, hsum _ _ _ (hafter _), hnone, append_nil]
    rfl
  | step c hc next hnext hr hlt hset ih =>
    intro hstart entryMade
    have hiff : ∀ x ∈ mask, c + intervalDistance S mask c < x ↔ next ≤ x := by
      intro x hx
      have := Finset.ext_iff.mp hset x
      simpa [hx] using this
    have hstart' : next - 1 ∉ mask := by
      intro h
      have hne : next ≠ c + intervalDistance S mask c + 1 := fun he =>
        (intervalDistance_spec hm hc).2 (he ▸ hnext)
      have := (hiff _ h).mp (by omega)
      omega
    have hends : {x ∈ intervalEnds mask | c + intervalDistance S mask c < x} = {x ∈ intervalEnds mask | next ≤ x} :=
      Finset.filter_congr fun x hx => hiff x (Finset.mem_filter.mp hx).1
    have hrec := ih (Or.inr hstart') true
    rw [if_pos rfl, Nat.add_zero] at hrec
    rw [elementsFrom_eq, hr, hfirst, intervalEnds_from hm hc hstart, hsum _ _ _ (hafter _), hends, ← hrec,
      length_append]
    dsimp only
    omega

/-! ## The whole text -/

/-- What `mu_to_str` writes between the brackets. -/
def insideBrackets (text : List Char) : List Char := text.tail.dropLast

theorem insideBrackets_muToStr (hm : Fits S mask) (hne : mask.Nonempty) :
    ∃ c ∈ mask, (∀ x ∈ mask, c ≤ x) ∧ insideBrackets (muToStr S mask) = elementsFrom S mask false c := by
  have hf := muGetFirstCpu_finds S mask
  cases hr : muGetFirstCpu S mask with
  | none =>
    rw [hr] at hf
    obtain ⟨c, hc⟩ := hne
    exact absurd ⟨hc, hm c hc⟩ (hf c)
  | some c =>
    rw [hr] at hf
    refine ⟨c, hf.1.1, fun x hx => hf.2 x ⟨hx, hm x hx⟩, ?_⟩
    simp [insideBrackets, muToStr, hr]

theorem length_insideBrackets (hm : Fits S mask) (hne : mask.Nonempty) :
    (insideBrackets (muToStr S mask)).length + 1 = printedLength (intervalEnds mask) := by
  obtain ⟨c, hc, hleast, htext⟩ := insideBrackets_muToStr hm hne
  have hstart : c = 0 ∨ c - 1 ∉ mask := by
    refine or_iff_not_imp_left.mpr fun h0 h => ?_
    have := hleast _ h
    omega
  have hall : {x ∈ intervalEnds mask | c ≤ x} = intervalEnds mask :=
    Finset.filter_true_of_mem fun x hx => hleast x (Finset.mem_filter.mp hx).1
  have := length_elementsFrom hm hc hstart false
  rwa [hall, ← htext] at this

theorem length_muToStr (hm : Fits S mask) (hne : mask.Nonempty) :
    (muToStr S mask).length = printedLength (intervalEnds mask) + 1 := by
  have h := length_insideBrackets hm hne
  simp only [insideBrackets, muToStr, length_dropLast, length_tail, length_append, length_cons,
    length_nil] at h ⊢
  omega

theorem muToStr_fits (hm : Fits S mask) (hS : S.bits ≤ cpuSetsize) :
    (muToStr S mask).length + 1 ≤ cpuSetsize * 4 := by
  have hall : printedLength (Finset.range cpuSetsize) + 2 ≤ cpuSetsize * 4 :=
    (Nat.add_le_add_right printedLength_range 2).trans (by decide)
  rcases mask.eq_empty_or_nonempty with rfl | hne
  · have hf := muGetFirstCpu_finds S ∅
    cases hr : muGetFirstCpu S ∅ with
    | none => simp [muToStr, hr, cpuSetsize]
    | some c =>
      rw [hr] at hf
      exact absurd hf.1.1 (Finset.notMem_empty c)
  · rw [length_muToStr hm hne]
    have hsub : intervalEnds mask ⊆ Finset.range cpuSetsize := fun x hx =>
      Finset.mem_range.mpr ((hm x (Finset.mem_filter.mp hx).1).trans_le hS)
    have : printedLength (intervalEnds mask) ≤ printedLength (Finset.range cpuSetsize) :=
      Finset.sum_le_sum_of_subset hsub
    omega

def isRangeChar (d : Char) : Bool := d.isDigit || d = ',' || d = '-'

theorem mem_element {n d : ℕ} {x : Char} (hx : x ∈ element n d) : isRangeChar x := by
  have hdigit : ∀ n, ∀ x ∈ decimal n, isRangeChar x := fun n x hx => by simp [isRangeChar, isDigit_of_mem_decimal hx]
  unfold element at hx
  split at hx
  · exact hdigit _ _ hx
  · split at hx
    · rcases mem_append.mp hx with hx | hx
      · exact hdigit _ _ hx
      · rcases mem_cons.mp hx with rfl | hx
        · rfl
        · exact hdigit _ _ hx
    · rcases mem_append.mp hx with hx | hx
      · exact hdigit _ _ hx
      · rcases mem_cons.mp hx with rfl | hx
        · rfl
        · exact hdigit _ _ hx

theorem mem_elementsFrom (hm : Fits S mask) (hc : c ∈ mask) :
    ∀ entryMade : Bool, ∀ x ∈ elementsFrom S mask entryMade c, isRangeChar x := by
  have hfirst : ∀ (entryMade : Bool), ∀ x ∈ (if entryMade then [','] else [] : List Char), isRangeChar x := by
    intro entryMade x hx
    cases entryMade with
    | false => exact absurd hx not_mem_nil
    | true =>
      rw [mem_singleton.mp hx]
      rfl
  induction c, hc using interval_induction hm with
  | last c hc hr hset =>
    intro entryMade x hx
    rw [elementsFrom_eq, hr, append_nil] at hx
    exact (mem_append.mp hx).elim (hfirst _ x) mem_element
  | step c hc next hnext hr hlt hset ih =>
    intro entryMade x hx
    rw [elementsFrom_eq, hr] at hx
    rcases mem_append.mp hx with hx | hx
    · exact hfirst _ x hx
    · exact (mem_append.mp hx).elim mem_element (ih true x)

theorem muParseMask_ranges {str : List Char} (hchars : ∀ x ∈ str, isRangeChar x) (hlen : str.length ≤ cpuSetsize) :
    muParseMask S str mask = parseRanges S ∅ str := by
  have hold : isOldBitmask str = false := by
    unfold isOldBitmask
    have hlast : (str.getLast?.any fun c => c = 'b' || c = 'B') = false := by
      cases h : str.getLast? with
      | none => rfl
      | some x =>
        have := hchars x (mem_of_getLast? h)
        by_contra hb
        rcases (by simpa [or_iff_not_imp_left] using hb : x = 'b' ∨ x = 'B') with rfl | rfl
        · exact absurd this (by decide)
        · exact absurd this (by decide)
    rw [hlast, Bool.and_false]
  have hbit : isBitmask str = false := by
    unfold isBitmask
    split
    · rename_i x digits
      have := hchars x (by simp)
      have h1 : x ≠ 'b' := by rintro rfl; exact absurd this (by decide)
      have h2 : x ≠ 'B' := by rintro rfl; exact absurd this (by decide)
      simp [h1, h2]
    · rfl
  have hhex : isHexmask str = false := by
    unfold isHexmask
    split
    · rename_i x digits
      have := hchars x (by simp)
      have h1 : x ≠ 'x' := by rintro rfl; exact absurd this (by decide)
      have h2 : x ≠ 'X' := by rintro rfl; exact absurd this (by decide)
      simp [h1, h2]
    · rfl
  rw [muParseMask, if_neg hlen.not_gt, hold, hbit, hhex]
  simp only [Bool.false_eq_true, if_false]
  cases str with
  | nil => simp [isRange, parseRanges]
  | cons d ds =>
    have hrange : isRange (d :: ds) := by
      unfold isRange
      simpa [isRangeChar] using hchars
    rw [if_pos hrange]

/-- The text of a mask is read back if it is not longer than the parser allows: the parser returns at once on longer
texts, whatever the mask that it is to write held before. -/
theorem muParseMask_muToStr_iff (hS : S.size ≤ cpuSetsize) (hm : ∀ x ∈ mask, x < S.size) (hne : mask.Nonempty) :
    (∀ result, muParseMask S (insideBrackets (muToStr S mask)) result = mask) ↔
      ∑ c ∈ intervalEnds mask, ((decimal c).length + 1) ≤ cpuSetsize + 1 := by
  have hfits : Fits S mask := fun x hx => (hm x hx).trans_le S.size_le_bits
  have hlen := length_insideBrackets hfits hne
  obtain ⟨c, hc, hleast, htext⟩ := insideBrackets_muToStr hfits hne
  change _ ↔ printedLength (intervalEnds mask) ≤ _
  constructor
  · intro h
    by_contra hlong
    have hempty : muParseMask S (insideBrackets (muToStr S mask)) ∅ = ∅ := if_pos (by omega)
    exact hne.ne_empty ((h ∅).symm.trans hempty)
  · intro h result
    have hchars : ∀ x ∈ insideBrackets (muToStr S mask), isRangeChar x := htext ▸ mem_elementsFrom hfits hc false
    rw [muParseMask_ranges hchars (by omega), htext, parseRanges_elementsFrom hm hS hc, Finset.empty_union]
    exact Finset.filter_true_of_mem hleast

/-- A machine of six CPUs with one thread in each core. -/
def sixCpus : System where
  sysMask := Finset.range 6
  cores := (range 6).map fun c => {c}
  disjoint := by decide
  covered := by decide

theorem muParseMask_muToStr_sixCpus :
    muParseMask sixCpus (insideBrackets (muToStr sixCpus {0, 2, 3, 4})) {5} = {0, 2, 3, 4} :=
  (muParseMask_muToStr_iff (by decide) (by decide) (by decide)).mpr (by decide) {5}

/-- The largest machine, with one thread in each core. -/
def largestMachine : System where
  sysMask := Finset.range cpuSetsize
  cores := (range cpuSetsize).map fun c => {c}
  disjoint := by
    rw [pairwise_map]
    exact nodup_range.imp fun h => Finset.disjoint_singleton.mpr h
  covered := by
    intro k hk
    obtain ⟨c, hc, rfl⟩ := mem_map.mp hk
    simpa using hc

def evenCpus : CpuSet := {c ∈ Finset.range cpuSetsize | c % 2 = 0}

theorem size_largestMachine : largestMachine.size = cpuSetsize :=
  Nat.le_antisymm (Finset.sup_le fun _ hc => Finset.mem_range.mp hc)
    (Finset.le_sup (f := (· + 1)) (Finset.mem_range.mpr (by decide : 1023 < cpuSetsize)))

theorem intervalEnds_evenCpus : intervalEnds evenCpus = evenCpus := by
  refine Finset.filter_true_of_mem fun c hc => Or.inr (Or.inr fun h => ?_)
  have h0 := (Finset.mem_filter.mp hc).2
  have h1 := (Finset.mem_filter.mp h).2
  omega

theorem evenCpus_long : cpuSetsize + 1 < printedLength (intervalEnds evenCpus) := by
  have htwo : ∀ c ∈ (Finset.Ico 5 512).image (2 * ·), 10 ^ 1 ≤ c := by
    intro c hc
    obtain ⟨n, hn, rfl⟩ := Finset.mem_image.mp hc
    have := (Finset.mem_Ico.mp hn).1
    omega
  have hsub : (Finset.Ico 5 512).image (2 * ·) ⊆ evenCpus := by
    intro c hc
    obtain ⟨n, hn, rfl⟩ := Finset.mem_image.mp hc
    have := (Finset.mem_Ico.mp hn).2
    exact Finset.mem_filter.mpr ⟨Finset.mem_range.mpr (by unfold cpuSetsize; omega), Nat.mul_mod_right 2 n⟩
  have hlen := card_le_printedLength (by decide) htwo
  rw [Finset.card_image_of_injective _ fun a b h => by omega, Nat.card_Ico] at hlen
  rw [intervalEnds_evenCpus]
  exact (by decide : cpuSetsize + 1 < (512 - 5) * (1 + 2)).trans_le (hlen.trans (Finset.sum_le_sum_of_subset hsub))

/-- The text of every other CPU is too long: the parser leaves the empty mask as it is. -/
theorem evenCpus_not_read_back :
    largestMachine.size ≤ cpuSetsize ∧ (∀ x ∈ evenCpus, x < largestMachine.size) ∧ evenCpus.Nonempty ∧
      muParseMask largestMachine (insideBrackets (muToStr largestMachine evenCpus)) ∅ ≠ evenCpus := by
  have hlt : ∀ x ∈ evenCpus, x < largestMachine.size := by
    intro x hx
    rw [size_largestMachine]
    exact Finset.mem_range.mp (Finset.mem_filter.mp hx).1
  have hne : evenCpus.Nonempty := ⟨0, by simp [evenCpus, cpuSetsize]⟩
  have hfits : Fits largestMachine evenCpus := fun x hx => (hlt x hx).trans_le largestMachine.size_le_bits
  have hlen := length_insideBrackets hfits hne
  have hlong := evenCpus_long
  refine ⟨size_largestMachine.le, hlt, hne, ?_⟩
  have hkept : muParseMask largestMachine (insideBrackets (muToStr largestMachine evenCpus)) ∅ = ∅ :=
    if_pos (by omega)
  rw [hkept]
  exact hne.ne_empty.symm

end Dlb

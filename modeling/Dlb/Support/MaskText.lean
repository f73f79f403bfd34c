import Dlb.Support.MaskUtils

/-!
# Masks as text

The printer and the parser of `mask_utils.c`. `mu_to_str` writes a mask as its intervals, which it finds with the
bit searches `mu_get_first_cpu`, `mu_get_next_cpu`, `mu_get_next_unset` and `mu_get_last_cpu`; `mu_parse_mask` reads
a list of intervals, a string of bits or a hexadecimal number. A text is a `List Char`, without the end of string.
-/

namespace Dlb

open List

/-- `CPU_SETSIZE` -/
def cpuSetsize : ℕ := 1024

variable (S : System)

/-! ## The bit searches -/

/-- `ffsl(bits) - 1`, from the CPU of the word's first bit: its first CPU, if it has any bit set. -/
def firstBit (bits : CpuSet) : Option ℕ := if h : bits.Nonempty then some (bits.min' h) else none

/-- `~mask->__bits[i]` -/
def unsetWord (mask : CpuSet) (i : ℕ) : CpuSet := Finset.Ico (cpusPerUlong * i) (cpusPerUlong * (i + 1)) \ mask

/-- `mu_get_first_cpu`; `none` is `-1`. -/
def muGetFirstCpu (mask : CpuSet) : Option ℕ := (range' 0 S.numUlongs).findSome? fun i => firstBit (word mask i)

/-- The word of `prev` without the CPUs up to `prev`. -/
def wordAfter (bits : ℕ → CpuSet) (prev : ℤ) (i : ℕ) : CpuSet :=
  if 0 ≤ prev ∧ prev / cpusPerUlong = i then {c ∈ bits i | prev % cpusPerUlong + 1 ≤ (c % cpusPerUlong : ℕ)} else bits i

/-- The search of `mu_get_next_cpu` and `mu_get_next_unset`: from the word of the next CPU on. -/
def nextBit (bits : ℕ → CpuSet) (prev : ℤ) : Option ℕ :=
  if prev < -1 then none
  else
    let i := ((prev + 1) / cpusPerUlong).toNat
    (range' i (S.numUlongs - i)).findSome? fun i => firstBit (wordAfter bits prev i)

/-- `mu_get_next_cpu` -/
def muGetNextCpu (mask : CpuSet) (prev : ℤ) : Option ℕ := nextBit S (word mask) prev

/-- `mu_get_next_unset` -/
def muGetNextUnset (mask : CpuSet) (prev : ℤ) : Option ℕ := nextBit S (unsetWord mask) prev

/-! ## What a search finds -/

/-- The search for the first number with a property. -/
def Finds (P : ℕ → Prop) : Option ℕ → Prop
  | some c => P c ∧ ∀ x, P x → c ≤ x
  | none => ∀ x, ¬P x

theorem Finds.congr {P Q : ℕ → Prop} {r : Option ℕ} (h : Finds P r) (hPQ : ∀ x, P x ↔ Q x) : Finds Q r := by
  have : P = Q := funext fun x => propext (hPQ x)
  rwa [← this]

theorem firstBit_finds (bits : CpuSet) : Finds (· ∈ bits) (firstBit bits) := by
  unfold firstBit
  split
  · rename_i hne
    exact ⟨Finset.min'_mem _ hne, fun x hx => Finset.min'_le _ _ hx⟩
  · rename_i hne
    exact fun x hx => hne ⟨x, hx⟩

theorem findSome_finds {B : ℕ → CpuSet} (hB : ∀ i, ∀ c ∈ B i, c / cpusPerUlong = i) (n i : ℕ) :
    Finds (fun x => x ∈ B (x / cpusPerUlong) ∧ i ≤ x / cpusPerUlong ∧ x / cpusPerUlong < i + n)
      ((range' i n).findSome? fun i => firstBit (B i)) := by
  induction n generalizing i with
  | zero =>
    rintro x ⟨-, h1, h2⟩
    omega
  | succ n ih =>
    rw [range'_succ, findSome?_cons]
    have hfirst := firstBit_finds (B i)
    cases hr : firstBit (B i) with
    | some c =>
      rw [hr] at hfirst
      obtain ⟨hmem, hleast⟩ := hfirst
      have hdiv := hB i c hmem
      refine ⟨⟨hdiv.symm ▸ hmem, hdiv.ge, by omega⟩, fun x hx => ?_⟩
      obtain ⟨hx, h1, h2⟩ := hx
      rcases h1.eq_or_lt with heq | hlt
      · exact hleast x (heq ▸ hx)
      · have hlt' : c / cpusPerUlong < x / cpusPerUlong := by omega
        exact (Nat.lt_of_div_lt_div hlt').le
    | none =>
      rw [hr] at hfirst
      refine (ih (i + 1)).congr fun x => ⟨?_, ?_⟩
      · rintro ⟨hx, h1, h2⟩
        exact ⟨hx, by omega, by omega⟩
      · rintro ⟨hx, h1, h2⟩
        refine ⟨hx, ?_, by omega⟩
        rcases h1.eq_or_lt with heq | hlt
        · exact absurd (heq ▸ hx) (hfirst x)
        · exact hlt

theorem mem_wordAfter {B : ℕ → CpuSet} {prev x : ℕ} :
    x ∈ wordAfter B prev (x / cpusPerUlong) ↔
      x ∈ B (x / cpusPerUlong) ∧ (prev / cpusPerUlong = x / cpusPerUlong → prev < x) := by
  unfold wordAfter cpusPerUlong
  split
  · rename_i h
    rw [Finset.mem_filter]
    refine and_congr_right fun _ => ?_
    omega
  · rename_i h
    refine (and_iff_left fun heq => ?_).symm
    omega

theorem nextBit_finds {B : ℕ → CpuSet} (hB : ∀ i, ∀ c ∈ B i, c / cpusPerUlong = i) (prev : ℕ) :
    Finds (fun x => x ∈ B (x / cpusPerUlong) ∧ prev < x ∧ x < S.bits) (nextBit S B prev) := by
  have hsub : ∀ i, ∀ c ∈ wordAfter B prev i, c / cpusPerUlong = i := by
    intro i c hc
    unfold wordAfter at hc
    split at hc
    · exact hB i c (Finset.mem_filter.mp hc).1
    · exact hB i c hc
  have hstart : (((prev : ℤ) + 1) / cpusPerUlong).toNat = (prev + 1) / cpusPerUlong := by
    rw [show (prev : ℤ) + 1 = ((prev + 1 : ℕ) : ℤ) by omega, ← Int.natCast_ediv, Int.toNat_natCast]
  unfold nextBit
  refine (findSome_finds hsub _ _).congr fun x => ?_
  rw [mem_wordAfter, and_assoc]
  refine and_congr_right fun _ => ?_
  unfold System.bits cpusPerUlong
  omega

theorem muGetFirstCpu_finds (mask : CpuSet) :
    Finds (fun x => x ∈ mask ∧ x < S.bits) (muGetFirstCpu S mask) := by
  refine (findSome_finds (fun i c hc => (Finset.mem_filter.mp hc).2) _ _).congr fun x => ?_
  simp only [Finset.mem_filter, and_true]
  refine and_congr_right fun _ => ?_
  unfold System.bits cpusPerUlong
  omega

theorem muGetNextCpu_finds (mask : CpuSet) (prev : ℕ) :
    Finds (fun x => x ∈ mask ∧ prev < x ∧ x < S.bits) (muGetNextCpu S mask prev) := by
  refine (nextBit_finds S (fun i c hc => (Finset.mem_filter.mp hc).2) prev).congr fun x => ?_
  simp only [Finset.mem_filter, and_true]

theorem muGetNextUnset_finds (mask : CpuSet) (prev : ℕ) :
    Finds (fun x => x ∉ mask ∧ prev < x ∧ x < S.bits) (muGetNextUnset S mask prev) := by
  refine (nextBit_finds S (fun i c hc => ?_) prev).congr fun x => ?_
  · have h := Finset.mem_Ico.mp (Finset.mem_sdiff.mp hc).1
    unfold cpusPerUlong at *
    omega
  · have hx : x ∈ Finset.Ico (cpusPerUlong * (x / cpusPerUlong)) (cpusPerUlong * (x / cpusPerUlong + 1)) := by
      rw [Finset.mem_Ico]
      unfold cpusPerUlong
      omega
    rw [unsetWord, Finset.mem_sdiff, and_iff_right hx]

theorem muGetLastCpu_max {S : System} {mask : CpuSet} {c : ℕ} (h : muGetLastCpu S mask = some c) {x : ℕ} (hx : x ∈ mask)
    (hlt : x < S.bits) : x ≤ c := by
  unfold muGetLastCpu at h
  unfold System.bits at hlt
  generalize S.numUlongs = n at h hlt
  induction n with
  | zero => cases h
  | succ n ih =>
    rw [range_succ, reverse_append, reverse_singleton, singleton_append, findSome?_cons] at h
    by_cases hne : (word mask n).Nonempty
    · simp only [lastBit, hne, dite_true, Option.some.injEq] at h
      have hc := Finset.max'_mem _ hne
      by_cases hxn : x / cpusPerUlong = n
      · exact h ▸ Finset.le_max' _ _ (Finset.mem_filter.mpr ⟨hx, hxn⟩)
      · have hdiv := (Finset.mem_filter.mp hc).2
        unfold cpusPerUlong at *
        omega
    · simp only [lastBit, hne, dite_false] at h
      have hxn : x / cpusPerUlong ≠ n := fun hxn => hne ⟨x, Finset.mem_filter.mpr ⟨hx, hxn⟩⟩
      refine ih h ?_
      unfold cpusPerUlong at *
      omega

/-! ## The printer -/

/-- How far the last CPU of the interval of `cpuid` is. `next + 1` is `next_unset > 0`. -/
def intervalDistance (mask : CpuSet) (cpuid : ℕ) : ℕ :=
  match muGetNextUnset S mask cpuid with
  | some (next + 1) => next - cpuid
  | _ => (muGetLastCpu S mask).getD cpuid - cpuid

/-- `"%d"` -/
def decimal (n : ℕ) : List Char := Nat.toDigits 10 n

def element (cpuid distance : ℕ) : List Char :=
  if distance = 0 then decimal cpuid
  else if distance = 1 then decimal cpuid ++ ',' :: decimal (cpuid + 1)
  else decimal cpuid ++ '-' :: decimal (cpuid + distance)

theorem muGetNextCpu_after {mask : CpuSet} {prev c : ℕ} (h : muGetNextCpu S mask prev = some c) :
    prev < c ∧ c < S.bits := by
  have hf := muGetNextCpu_finds S mask prev
  rw [h] at hf
  exact hf.1.2

/-- The loop of `mu_to_str` from `cpuid` on. An interval is written at once, the loop goes on after it. -/
def elementsFrom (mask : CpuSet) (entryMade : Bool) (cpuid : ℕ) : List Char :=
  let distance := intervalDistance S mask cpuid
  let entry := (if entryMade then [','] else []) ++ element cpuid distance
  match _h : muGetNextCpu S mask ((cpuid + distance : ℕ) : ℤ) with
  | some next => entry ++ elementsFrom mask true next
  | none => entry
termination_by S.bits - cpuid
decreasing_by
  have := muGetNextCpu_after S _h
  omega

/-- `mu_to_str` -/
def muToStr (mask : CpuSet) : List Char :=
  '[' :: (match muGetFirstCpu S mask with
    | some cpuid => elementsFrom S mask false cpuid
    | none => []) ++ [']']

/-! ## The parser -/

def digitValue (c : Char) : Option ℕ :=
  if c.isDigit then some (c.toNat - '0'.toNat)
  else if c.isLower then some (c.toNat - 'a'.toNat + 10)
  else if c.isUpper then some (c.toNat - 'A'.toNat + 10)
  else none

def isDigitOf (base : ℕ) (c : Char) : Bool := (digitValue c).any (· < base)

/-- `strtoul` and `strtoull` on a text with no blank, sign or base prefix in front: the number, at most `ULONG_MAX`, and
the text after it. -/
def strtoul (str : List Char) (base : ℕ) : ℕ × List Char :=
  let value := (str.takeWhile (isDigitOf base)).foldl (fun n c => base * n + (digitValue c).getD 0) 0
  (min value (2 ^ 64 - 1), str.dropWhile (isDigitOf base))

/-- `parse_64_bits_mask` -/
def parse64BitsMask (mask : CpuSet) (offset : ℕ) (str : List Char) (base : ℕ) : CpuSet :=
  mask ∪ {i ∈ Finset.Ico offset S.size | (strtoul str base).1.testBit (i - offset)}

/-- The chunks of a long string of digits, the last one first. Every round shortens the string, so that its length is
enough fuel. -/
def parseChunks (chunk base : ℕ) : ℕ → CpuSet → ℕ → List Char → CpuSet
  | 0, mask, _, _ => mask
  | fuel + 1, mask, offset, str =>
    let start := str.length - chunk
    let mask := parse64BitsMask S mask offset (str.drop start) base
    if 0 < start then parseChunks chunk base fuel mask (offset + 64) (str.take start) else mask

/-- The digits after `0b` or `0x`. -/
def parseDigits (mask : CpuSet) (str : List Char) (chunk base : ℕ) : CpuSet :=
  if str.length ≤ chunk then parse64BitsMask S mask 0 str base else parseChunks S chunk base str.length mask 0 str

theorem isDigitOf_ten {c : Char} : isDigitOf 10 c = c.isDigit := by
  unfold isDigitOf digitValue
  by_cases hd : c.isDigit
  · have hle : c.toNat ≤ '9'.toNat := by
      simp [Char.isDigit] at hd
      exact hd.2
    have h9 : '9'.toNat = 57 := rfl
    have h0 : '0'.toNat = 48 := rfl
    simp only [hd, if_true, Option.any_some, decide_eq_true_eq]
    omega
  · simp [hd]
    split
    · simp
    · split
      · simp
      · simp

theorem strtoul_length {c : Char} (cs : List Char) (hc : c.isDigit) : (strtoul (c :: cs) 10).2.length ≤ cs.length := by
  rw [strtoul, dropWhile_cons_of_pos (isDigitOf_ten.trans hc)]
  exact (dropWhile_sublist _).length_le

/-- The loop over a list of elements and ranges. What is no digit where a number may start is junk. -/
def parseRanges (mask : CpuSet) (str : List Char) : CpuSet :=
  match str with
  | [] => mask
  | c :: cs =>
    if _hc : c.isDigit then
      let start := min (strtoul (c :: cs) 10).1 S.size
      match _hptr : (strtoul (c :: cs) 10).2 with
      | [] => if start < S.size then insert start mask else mask
      | sep :: ptr =>
        if sep = ',' ∧ start < S.size then parseRanges (insert start mask) ptr
        else if sep = '-' then
          match ptr with
          | [] => mask
          | d :: ds =>
            if _hd : d.isDigit then
              let stop := min (strtoul (d :: ds) 10).1 S.size
              parseRanges (if start < stop then mask ∪ {i ∈ Finset.Icc start stop | i < S.size} else mask)
                (strtoul (d :: ds) 10).2
            else parseRanges mask ds
        else parseRanges mask (sep :: ptr)
    else parseRanges mask cs
termination_by str.length
decreasing_by
  all_goals
    simp only [length_cons]
    try have hrest := strtoul_length cs _hc
    try rw [_hptr, length_cons] at hrest
  · omega
  · have hlast := strtoul_length ds _hd
    simp only [length_cons] at hrest
    omega
  · simp only [length_cons] at hrest
    omega
  · omega
  · omega

/-- `^[0-1][0-1]+[bB]$` -/
def isOldBitmask (str : List Char) : Bool :=
  3 ≤ str.length && str.dropLast.all (fun c => c = '0' || c = '1') && (str.getLast?.any fun c => c = 'b' || c = 'B')

/-- `^0[bB][0-1]+$` -/
def isBitmask : List Char → Bool
  | '0' :: x :: digits => (x = 'b' || x = 'B') && digits ≠ [] && digits.all fun c => c = '0' || c = '1'
  | _ => false

/-- `^0[xX][0-9,a-f,A-F]+$` -/
def isHexmask : List Char → Bool
  | '0' :: x :: digits => (x = 'x' || x = 'X') && digits ≠ [] &&
      digits.all fun c => c.isDigit || c = ',' || ('a' ≤ c && c ≤ 'f') || ('A' ≤ c && c ≤ 'F')
  | _ => false

/-- `^[0-9,-]+$` -/
def isRange (str : List Char) : Bool := str ≠ [] && str.all fun c => c.isDigit || c = ',' || c = '-'

/-- `mu_parse_mask` -/
def muParseMask (str : List Char) (mask : CpuSet) : CpuSet :=
  if cpuSetsize < str.length then mask
  else if isOldBitmask str then {i ∈ Finset.range S.size | str[i]? = some '1'}
  else if isBitmask str then parseDigits S ∅ (str.drop 2) 64 2
  else if isHexmask str then parseDigits S ∅ (str.drop 2) 16 16
  else if isRange str then parseRanges S ∅ str
  else ∅

end Dlb

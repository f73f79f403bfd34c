import Dlb.Support.MaskTextSpec
import Mathlib.Data.Nat.Bitwise
import Mathlib.Tactic.Ring

/-!
# Masks in binary and hexadecimal digits

`mu_parse_mask` cuts a long string of digits into parts of 64 bits, from the last digit on; together they are the bits of
the number that the string denotes (`mem_parseDigits`). `mu_parse_to_slurm_format` prints one digit for each group of
four CPUs, from the last CPU of the mask down (`slurmPrints_eq`).
-/

namespace Dlb

open List

/-! ## Numbers by their digits -/

/-- The number that a string of digits denotes. -/
def numberOf (base : ℕ) (digits : List Char) : ℕ := digits.foldl (fun n c => base * n + (digitValue c).getD 0) 0

section NumberOf

variable {base : ℕ}

theorem foldl_digits (l : List Char) (n : ℕ) :
    l.foldl (fun n c => base * n + (digitValue c).getD 0) n = base ^ l.length * n + numberOf base l := by
  induction l generalizing n with
  | nil => simp [numberOf]
  | cons c l ih =>
    rw [numberOf, foldl_cons, foldl_cons, ih, ih (base * 0 + (digitValue c).getD 0), length_cons]
    ring

theorem numberOf_append (l m : List Char) :
    numberOf base (l ++ m) = base ^ m.length * numberOf base l + numberOf base m := by
  rw [numberOf, foldl_append, foldl_digits]
  rfl

theorem numberOf_cons (c : Char) (l : List Char) :
    numberOf base (c :: l) = base ^ l.length * (digitValue c).getD 0 + numberOf base l := by
  rw [numberOf, foldl_cons, foldl_digits, Nat.mul_zero, Nat.zero_add]

theorem digitValue_lt {c : Char} (h : isDigitOf base c) : (digitValue c).getD 0 < base := by
  unfold isDigitOf at h
  cases hv : digitValue c with
  | none => simp [hv] at h
  | some v => simpa [hv] using h

theorem numberOf_lt {l : List Char} (h : ∀ c ∈ l, isDigitOf base c) : numberOf base l < base ^ l.length := by
  induction l with
  | nil => simp [numberOf]
  | cons c l ih =>
    have hc := digitValue_lt (h c mem_cons_self)
    have hl := ih fun x hx => h x (mem_cons_of_mem _ hx)
    calc numberOf base (c :: l) = base ^ l.length * (digitValue c).getD 0 + numberOf base l := numberOf_cons c l
      _ < base ^ l.length * (digitValue c).getD 0 + base ^ l.length := by omega
      _ = base ^ l.length * ((digitValue c).getD 0 + 1) := by ring
      _ ≤ base ^ l.length * base := Nat.mul_le_mul_left _ hc
      _ = base ^ (c :: l).length := by rw [length_cons, pow_succ]

theorem strtoul_digits {l : List Char} (h : ∀ c ∈ l, isDigitOf base c) (hfits : base ^ l.length ≤ 2 ^ 64) :
    (strtoul l base).1 = numberOf base l := by
  have hlt := numberOf_lt h
  unfold strtoul
  have htake : l.takeWhile (isDigitOf base) = l := by
    have happ : (l ++ []).takeWhile (isDigitOf base) = _ := takeWhile_append_of_pos h
    rwa [append_nil, takeWhile_nil, append_nil] at happ
  rw [htake]
  change min (numberOf base l) (2 ^ 64 - 1) = numberOf base l
  omega

end NumberOf

section Chunks

variable {S : System} {mask : CpuSet} {k chunk : ℕ}

theorem mem_parse64BitsMask {offset i : ℕ} {str : List Char} (h : ∀ c ∈ str, isDigitOf (2 ^ k) c)
    (hlen : k * str.length ≤ 64) :
    i ∈ parse64BitsMask S mask offset str (2 ^ k) ↔
      i ∈ mask ∨ offset ≤ i ∧ i < S.size ∧ (numberOf (2 ^ k) str).testBit (i - offset) := by
  have hfits : (2 ^ k) ^ str.length ≤ 2 ^ 64 := by
    rw [← pow_mul]
    exact Nat.pow_le_pow_right (by decide) hlen
  simp only [parse64BitsMask, strtoul_digits h hfits, Finset.mem_union, Finset.mem_filter, Finset.mem_Ico, and_assoc]

theorem mem_parseChunks (hk : k * chunk = 64) {fuel offset i : ℕ} {str : List Char}
    (h : ∀ c ∈ str, isDigitOf (2 ^ k) c) (hfuel : str.length ≤ fuel) :
    i ∈ parseChunks S chunk (2 ^ k) fuel mask offset str ↔
      i ∈ mask ∨ offset ≤ i ∧ i < S.size ∧ (numberOf (2 ^ k) str).testBit (i - offset) := by
  induction fuel generalizing mask offset str with
  | zero =>
    have hnil : str = [] := length_eq_zero_iff.mp (by omega)
    simp [parseChunks, hnil, numberOf]
  | succ fuel ih =>
    have hpos : 0 < chunk := Nat.pos_of_ne_zero fun h0 => by simp [h0] at hk
    have hdigits : ∀ c ∈ str.drop (str.length - chunk), isDigitOf (2 ^ k) c := fun c hc => h c (mem_of_mem_drop hc)
    have hlast : k * (str.drop (str.length - chunk)).length ≤ 64 := by
      rw [← hk, length_drop]
      exact Nat.mul_le_mul_left _ (by omega)
    unfold parseChunks
    dsimp only
    split
    · rename_i hstart
      have hlen : (str.drop (str.length - chunk)).length = chunk := by
        rw [length_drop]
        omega
      have hsplit : numberOf (2 ^ k) str = 2 ^ 64 * numberOf (2 ^ k) (str.take (str.length - chunk)) +
          numberOf (2 ^ k) (str.drop (str.length - chunk)) := by
        conv_lhs => rw [← take_append_drop (str.length - chunk) str]
        rw [numberOf_append, hlen, ← pow_mul, hk]
      have hlow : numberOf (2 ^ k) (str.drop (str.length - chunk)) < 2 ^ 64 := by
        have hlt := numberOf_lt hdigits
        rwa [hlen, ← pow_mul, hk] at hlt
      rw [ih (fun c hc => h c (mem_of_mem_take hc)) (by rw [length_take]; omega),
        mem_parse64BitsMask hdigits hlast, hsplit, Nat.testBit_two_pow_mul_add _ hlow]
      by_cases hi : i - offset < 64
      · rw [if_pos hi]
        have hout : ¬(offset + 64 ≤ i ∧ i < S.size ∧
            (numberOf (2 ^ k) (str.take (str.length - chunk))).testBit (i - (offset + 64))) := by omega
        tauto
      · rw [if_neg hi, Nat.sub_sub]
        have hin : offset ≤ i ∧ offset + 64 ≤ i := by omega
        have hzero : (numberOf (2 ^ k) (str.drop (str.length - chunk))).testBit (i - offset) = false :=
          Nat.testBit_lt_two_pow (hlow.trans_le (Nat.pow_le_pow_right (by decide) (by omega)))
        rw [hzero]
        simp [hin]
    · rename_i hstart
      rw [mem_parse64BitsMask hdigits hlast]
      have hzero : str.length - chunk = 0 := by omega
      rw [hzero, drop_zero]

theorem mem_parseDigits (hk : k * chunk = 64) {i : ℕ} {str : List Char} (h : ∀ c ∈ str, isDigitOf (2 ^ k) c) :
    i ∈ parseDigits S ∅ str chunk (2 ^ k) ↔ i < S.size ∧ (numberOf (2 ^ k) str).testBit i := by
  unfold parseDigits
  split
  · rename_i hlen
    rw [mem_parse64BitsMask h (hk ▸ Nat.mul_le_mul_left _ hlen)]
    simp
  · rw [mem_parseChunks hk h le_rfl]
    simp

end Chunks

/-! ## Strings of digits -/

/-- The ids below the system size that are set in a number. -/
def bitsOf (S : System) (n : ℕ) : CpuSet := {i ∈ Finset.range S.size | n.testBit i}

theorem mem_bitsOf {S : System} {n i : ℕ} : i ∈ bitsOf S n ↔ i < S.size ∧ n.testBit i := by
  rw [bitsOf, Finset.mem_filter, Finset.mem_range]

theorem isOldBitmask_of_letter {x : Char} (hx : x ≠ '0' ∧ x ≠ '1') (digits : List Char) :
    isOldBitmask ('0' :: x :: digits) = false := by
  cases digits with
  | nil => rfl
  | cons d ds => simp [isOldBitmask, hx.1, hx.2]

theorem numberOf_nil (base : ℕ) : numberOf base [] = 0 := rfl

theorem bitsOf_zero (S : System) : bitsOf S 0 = ∅ := by simp [bitsOf]

theorem isHexDigit {c : Char} (h : isDigitOf 16 c) :
    (c.isDigit || c = ',' || ('a' ≤ c && c ≤ 'f') || ('A' ≤ c && c ≤ 'F')) = true := by
  have hle (a b : Char) : a ≤ b ↔ a.toNat ≤ b.toNat := Iff.rfl
  have hlower : c.isLower = true ↔ 97 ≤ c.toNat ∧ c.toNat ≤ 122 := by
    delta Char.isLower
    rw [Bool.and_eq_true, decide_eq_true_eq, decide_eq_true_eq]
    rfl
  have hupper : c.isUpper = true ↔ 65 ≤ c.toNat ∧ c.toNat ≤ 90 := by
    delta Char.isUpper
    rw [decide_eq_true_eq]
    rfl
  have ha : 'a'.toNat = 97 ∧ 'f'.toNat = 102 ∧ 'A'.toNat = 65 ∧ 'F'.toNat = 70 := ⟨rfl, rfl, rfl, rfl⟩
  unfold isDigitOf digitValue at h
  simp only [Bool.or_eq_true, Bool.and_eq_true, decide_eq_true_eq, hle]
  split_ifs at h with hd hl hu
  · exact .inl (.inl (.inl hd))
  · rw [hlower] at hl
    simp only [Option.any_some, decide_eq_true_eq] at h
    omega
  · rw [hupper] at hu
    simp only [Option.any_some, decide_eq_true_eq] at h
    omega
  · simp at h

theorem muParseMask_hex (S : System) (result : CpuSet) {digits : List Char} (h : ∀ c ∈ digits, isDigitOf 16 c)
    (hlen : digits.length + 2 ≤ cpuSetsize) :
    muParseMask S ('0' :: 'x' :: digits) result = bitsOf S (numberOf 16 digits) := by
  have hshort : ¬cpuSetsize < ('0' :: 'x' :: digits).length := Nat.not_lt.mpr hlen
  unfold muParseMask
  rw [if_neg hshort, if_neg (by simp [isOldBitmask_of_letter (x := 'x') (by decide)]),
    if_neg (by simp [isBitmask])]
  cases digits with
  | nil =>
    rw [if_neg (by simp [isHexmask]), if_neg (by simp [isRange]), numberOf_nil, bitsOf_zero]
  | cons d ds =>
    have hall : ((d :: ds).all fun c => c.isDigit || c = ',' || ('a' ≤ c && c ≤ 'f') || ('A' ≤ c && c ≤ 'F')) = true :=
      all_eq_true.mpr fun c hc => isHexDigit (h c hc)
    rw [if_pos (by simp only [isHexmask, hall]; rfl)]
    ext i
    rw [mem_bitsOf]
    exact mem_parseDigits (k := 4) (by decide) h

theorem muParseMask_binary (S : System) (result : CpuSet) {digits : List Char} (h : ∀ c ∈ digits, c = '0' ∨ c = '1')
    (hlen : digits.length + 2 ≤ cpuSetsize) :
    muParseMask S ('0' :: 'b' :: digits) result = bitsOf S (numberOf 2 digits) := by
  have hdigits : ∀ c ∈ digits, isDigitOf 2 c := fun c hc => by
    rcases h c hc with rfl | rfl
    · decide
    · decide
  have hshort : ¬cpuSetsize < ('0' :: 'b' :: digits).length := Nat.not_lt.mpr hlen
  unfold muParseMask
  rw [if_neg hshort, if_neg (by simp [isOldBitmask_of_letter (x := 'b') (by decide)])]
  cases digits with
  | nil =>
    rw [if_neg (by simp [isBitmask]), if_neg (by simp [isHexmask]), if_neg (by simp [isRange]), numberOf_nil, bitsOf_zero]
  | cons d ds =>
    have hall : ((d :: ds).all fun c => c = '0' || c = '1') = true :=
      all_eq_true.mpr fun c hc => by simpa using h c hc
    rw [if_pos (by simp only [isBitmask, hall]; rfl)]
    ext i
    rw [mem_bitsOf]
    exact mem_parseDigits (k := 1) (by decide) hdigits

/-! ## The printer -/

/-- `"%llx"` -/
def hexText (val : ℕ) : List Char := Nat.toDigits 16 val

/-- The calls of `sprintf` in the loop of `mu_parse_to_slurm_format`, from a CPU down, each with its offset. -/
def slurmPrints (mask : CpuSet) (offset val cpuid : ℕ) : List (ℕ × List Char) :=
  let val := if cpuid ∈ mask then val ||| 1 <<< (cpuid % 4) else val
  match cpuid with
  | 0 => [(offset, hexText val)]
  | next + 1 =>
    if (next + 1) % 4 = 0 then (offset, hexText val) :: slurmPrints mask (offset + 1) 0 next
    else slurmPrints mask offset val next

variable (S : System)

/-- All calls of `sprintf` in `mu_parse_to_slurm_format`. -/
def slurmWrites (mask : CpuSet) : List (ℕ × List Char) :=
  (0, ['0', 'x']) ::
    match muGetLastCpu S mask with
    | some cpuid => slurmPrints mask 2 0 cpuid
    | none => [(2, hexText 0)]

def slurmAlloc : ℕ := (S.size >>> 2) + 3

/-- `sprintf` ends the string after what it prints. -/
def sprintfAt (buffer : List Char) (print : ℕ × List Char) : List Char := buffer.take print.1 ++ print.2

/-- The string of `mu_parse_to_slurm_format`. -/
def muParseToSlurmFormat (mask : CpuSet) : List Char := (slurmWrites S mask).foldl sprintfAt []

/-! ## Groups of four CPUs -/

/-- Four CPUs of a mask as the value of a digit. -/
def nibble (mask : CpuSet) (g : ℕ) : ℕ := Nat.ofBits fun j : Fin 4 => decide (4 * g + j.val ∈ mask)

def nibblesFrom (mask : CpuSet) : ℕ → List ℕ
  | 0 => [nibble mask 0]
  | g + 1 => nibble mask (g + 1) :: nibblesFrom mask g

section Nibbles

variable {mask : CpuSet}

theorem testBit_nibble (g j : ℕ) : (nibble mask g).testBit j = decide (j < 4 ∧ 4 * g + j ∈ mask) := by
  by_cases hj : j < 4
  · rw [nibble, Nat.testBit_ofBits_lt _ _ hj]
    simp [hj]
  · rw [nibble, Nat.testBit_ofBits_ge _ _ (by omega)]
    simp [hj]

theorem nibble_lt (g : ℕ) : nibble mask g < 16 := Nat.ofBits_lt_two_pow _

theorem nibblesFrom_length (g : ℕ) : (nibblesFrom mask g).length = g + 1 := by
  induction g with
  | zero => rfl
  | succ g ih => rw [nibblesFrom, length_cons, ih]

theorem hexText_of_lt {v : ℕ} (h : v < 16) : hexText v = [Nat.digitChar v] := Nat.toDigits_of_lt_base h

theorem testBit_setCpu {val cpuid : ℕ}
    (hval : ∀ j, val.testBit j = decide (j < 4 ∧ cpuid % 4 < j ∧ 4 * (cpuid / 4) + j ∈ mask)) (j : ℕ) :
    (if cpuid ∈ mask then val ||| 1 <<< (cpuid % 4) else val).testBit j =
      decide (j < 4 ∧ cpuid % 4 ≤ j ∧ 4 * (cpuid / 4) + j ∈ mask) := by
  have hself : 4 * (cpuid / 4) + cpuid % 4 = cpuid := Nat.div_add_mod cpuid 4
  have hlt : cpuid % 4 < 4 := Nat.mod_lt _ (by decide)
  by_cases hj : cpuid % 4 = j
  · subst hj
    split_ifs with hc
    · rw [Nat.testBit_or, Nat.one_shiftLeft, Nat.testBit_two_pow_self, Bool.or_true]
      simp [hself, hc, hlt]
    · rw [hval, hself]
      simp [hc]
  · have hle : cpuid % 4 ≤ j ↔ cpuid % 4 < j := by omega
    split_ifs with hc
    · rw [Nat.testBit_or, Nat.one_shiftLeft, Nat.testBit_two_pow_of_ne hj, Bool.or_false, hval]
      simp only [hle]
    · rw [hval]
      simp only [hle]

theorem eq_nibble {val g : ℕ} (h : ∀ j, val.testBit j = decide (j < 4 ∧ 0 ≤ j ∧ 4 * g + j ∈ mask)) :
    val = nibble mask g :=
  Nat.eq_of_testBit_eq fun j => by
    rw [h, testBit_nibble]
    simp

theorem slurmPrints_eq {offset val cpuid : ℕ}
    (hval : ∀ j, val.testBit j = decide (j < 4 ∧ cpuid % 4 < j ∧ 4 * (cpuid / 4) + j ∈ mask)) :
    slurmPrints mask offset val cpuid =
      ((nibblesFrom mask (cpuid / 4)).zipIdx offset).map fun p => (p.2, hexText p.1) := by
  induction cpuid generalizing offset val with
  | zero =>
    have hnew := eq_nibble (g := 0) (testBit_setCpu hval)
    rw [slurmPrints, hnew]
    rfl
  | succ next ih =>
    have hset := testBit_setCpu hval
    rw [slurmPrints, Nat.succ_eq_add_one]
    generalize (if next + 1 ∈ mask then val ||| 1 <<< ((next + 1) % 4) else val) = new at hset ⊢
    split_ifs with hmod
    · have hdiv : (next + 1) / 4 = next / 4 + 1 := by omega
      rw [hmod] at hset
      rw [eq_nibble hset, ih fun j => ?_, hdiv, nibblesFrom, zipIdx_cons, map_cons]
      rw [Nat.zero_testBit, eq_comm, decide_eq_false_iff_not]
      omega
    · have hdiv : (next + 1) / 4 = next / 4 := by omega
      have hnext (j : ℕ) : (next + 1) % 4 ≤ j ↔ next % 4 < j := by omega
      simp only [hdiv, hnext] at hset
      rw [ih hset, hdiv]

theorem foldl_sprintfAt {l : List ℕ} (h : ∀ v ∈ l, v < 16) {buffer : List Char} {offset : ℕ}
    (hoffset : buffer.length = offset) :
    ((l.zipIdx offset).map fun p => (p.2, hexText p.1)).foldl sprintfAt buffer = buffer ++ l.map Nat.digitChar := by
  induction l generalizing buffer offset with
  | nil => simp
  | cons v l ih =>
    have hprint : sprintfAt buffer (offset, hexText v) = buffer ++ [Nat.digitChar v] := by
      rw [sprintfAt, hexText_of_lt (h v mem_cons_self), ← hoffset, take_length]
    rw [zipIdx_cons, map_cons, foldl_cons, hprint,
      ih (fun x hx => h x (mem_cons_of_mem _ hx)) (by simp [hoffset]), map_cons, append_assoc]
    rfl

theorem nibblesFrom_lt {g : ℕ} : ∀ v ∈ nibblesFrom mask g, v < 16 := by
  induction g with
  | zero => exact fun v hv => mem_singleton.mp hv ▸ nibble_lt 0
  | succ g ih =>
    intro v hv
    rcases mem_cons.mp hv with rfl | hv
    · exact nibble_lt _
    · exact ih v hv

theorem digitValue_digitChar : ∀ v < 16, digitValue (Nat.digitChar v) = some v := by decide

theorem numberOf_nibbles (g i : ℕ) :
    (numberOf 16 ((nibblesFrom mask g).map Nat.digitChar)).testBit i = decide (i < 4 * (g + 1) ∧ i ∈ mask) := by
  have hvalue (g : ℕ) : (digitValue (Nat.digitChar (nibble mask g))).getD 0 = nibble mask g := by
    rw [digitValue_digitChar _ (nibble_lt g)]
    rfl
  induction g with
  | zero =>
    rw [nibblesFrom, map_singleton, numberOf_cons, hvalue, numberOf_nil]
    simp [testBit_nibble]
  | succ g ih =>
    have hdigits : ∀ c ∈ (nibblesFrom mask g).map Nat.digitChar, isDigitOf 16 c := fun c hc => by
      obtain ⟨v, hv, rfl⟩ := mem_map.mp hc
      have hlt := nibblesFrom_lt v hv
      simpa [isDigitOf, digitValue_digitChar v hlt] using hlt
    have hpow : 16 ^ ((nibblesFrom mask g).map Nat.digitChar).length = 2 ^ (4 * (g + 1)) := by
      rw [length_map, nibblesFrom_length, pow_mul]
      rfl
    have hlow := numberOf_lt hdigits
    rw [hpow] at hlow
    rw [nibblesFrom, map_cons, numberOf_cons, hvalue, hpow, Nat.testBit_two_pow_mul_add _ hlow]
    split_ifs with hi
    · rw [ih]
      have hi' : i < 4 * (g + 1 + 1) := by omega
      simp [hi, hi']
    · rw [testBit_nibble]
      have hsum : 4 * (g + 1) + (i - 4 * (g + 1)) = i := by omega
      have hiff : i - 4 * (g + 1) < 4 ↔ i < 4 * (g + 1 + 1) := by omega
      simp only [hsum, hiff]

end Nibbles

/-! ## The printed text -/

section Slurm

variable {S : System} {mask : CpuSet}

def lastGroup (S : System) (mask : CpuSet) : ℕ := (muGetLastCpu S mask).getD 0 / 4

theorem slurmWrites_eq (hm : Fits S mask) : slurmWrites S mask =
    (0, ['0', 'x']) :: ((nibblesFrom mask (lastGroup S mask)).zipIdx 2).map fun p => (p.2, hexText p.1) := by
  rw [slurmWrites, lastGroup]
  refine congrArg ((0, ['0', 'x']) :: ·) ?_
  cases hlast : muGetLastCpu S mask with
  | none =>
    have hempty : mask = ∅ := by
      by_contra hne
      obtain ⟨c, -, hc⟩ := muGetLastCpu_some hm (Finset.nonempty_iff_ne_empty.mpr hne)
      rw [hc] at hlast
      cases hlast
    subst hempty
    decide
  | some cpuid =>
    refine slurmPrints_eq fun j => ?_
    rw [Nat.zero_testBit, eq_comm, decide_eq_false_iff_not]
    rintro ⟨hj, hlt, hmem⟩
    have hle := muGetLastCpu_max hlast hmem (hm _ hmem)
    omega

theorem muParseToSlurmFormat_eq (hm : Fits S mask) :
    muParseToSlurmFormat S mask = '0' :: 'x' :: (nibblesFrom mask (lastGroup S mask)).map Nat.digitChar := by
  rw [muParseToSlurmFormat, slurmWrites_eq hm, foldl_cons]
  exact foldl_sprintfAt nibblesFrom_lt rfl

theorem lt_lastGroup (hm : Fits S mask) {c : ℕ} (hc : c ∈ mask) : c < 4 * (lastGroup S mask + 1) := by
  obtain ⟨last, -, hlast⟩ := muGetLastCpu_some hm ⟨c, hc⟩
  have hle := muGetLastCpu_max hlast hc (hm c hc)
  rw [lastGroup, hlast, Option.getD_some]
  omega

theorem muParseMask_muParseToSlurmFormat (hS : S.size ≤ cpuSetsize) (hm : ∀ c ∈ mask, c < S.size) (result : CpuSet) :
    muParseMask S (muParseToSlurmFormat S mask) result = mask := by
  have hfits : Fits S mask := fun c hc => (hm c hc).trans_le S.size_le_bits
  have hdigits : ∀ c ∈ (nibblesFrom mask (lastGroup S mask)).map Nat.digitChar, isDigitOf 16 c := fun c hc => by
    obtain ⟨v, hv, rfl⟩ := mem_map.mp hc
    have hlt := nibblesFrom_lt v hv
    simpa [isDigitOf, digitValue_digitChar v hlt] using hlt
  have hgroup : lastGroup S mask ≤ S.size / 4 := by
    unfold lastGroup
    cases hlast : muGetLastCpu S mask with
    | none => exact Nat.zero_le _
    | some last => exact Nat.div_le_div_right (hm last (muGetLastCpu_mem hlast)).le
  rw [muParseToSlurmFormat_eq hfits, muParseMask_hex S result hdigits (by
    rw [length_map, nibblesFrom_length]
    unfold cpuSetsize at hS ⊢
    omega)]
  ext i
  rw [mem_bitsOf, numberOf_nibbles, decide_eq_true_eq]
  exact ⟨fun h => h.2.2, fun h => ⟨hm i h, lt_lastGroup hfits h, h⟩⟩

/-- **Strings of digits.** A hexadecimal or binary string of any length stands for the bits of its number, and what
`mu_parse_to_slurm_format` prints is read back. -/
theorem muParseMask_digits (S : System) (result : CpuSet) :
    (∀ digits : List Char, (∀ c ∈ digits, isDigitOf 16 c) → digits.length + 2 ≤ cpuSetsize →
      muParseMask S ('0' :: 'x' :: digits) result = bitsOf S (numberOf 16 digits)) ∧
    (∀ digits : List Char, (∀ c ∈ digits, c = '0' ∨ c = '1') → digits.length + 2 ≤ cpuSetsize →
      muParseMask S ('0' :: 'b' :: digits) result = bitsOf S (numberOf 2 digits)) ∧
    (S.size ≤ cpuSetsize → ∀ mask : CpuSet, (∀ c ∈ mask, c < S.size) →
      muParseMask S (muParseToSlurmFormat S mask) result = mask) :=
  ⟨fun _ h hlen => muParseMask_hex S result h hlen, fun _ h hlen => muParseMask_binary S result h hlen,
    fun hS _ hm => muParseMask_muParseToSlurmFormat hS hm result⟩

/-! ## The buffer -/

theorem prints_fit_iff {l : List ℕ} (h : ∀ v ∈ l, v < 16) (hne : l ≠ []) {offset n : ℕ} :
    (∀ print ∈ (l.zipIdx offset).map fun p => (p.2, hexText p.1), print.1 + print.2.length + 1 ≤ n) ↔
      offset + l.length + 1 ≤ n := by
  induction l generalizing offset with
  | nil => exact absurd rfl hne
  | cons v l ih =>
    rw [zipIdx_cons, map_cons, forall_mem_cons, hexText_of_lt (h v mem_cons_self)]
    cases l with
    | nil => simp
    | cons w l =>
      rw [ih (fun x hx => h x (mem_cons_of_mem _ hx)) (cons_ne_nil _ _)]
      simp only [length_cons, length_nil]
      omega

/-- **The buffer of the printed text** holds every print and its end if and only if there are four CPUs and none of the
mask is beyond the last complete group of four. -/
theorem slurmWrites_fit_iff (S : System) (mask : CpuSet) (hm : ∀ c ∈ mask, c < S.size) :
    (∀ print ∈ slurmWrites S mask, print.1 + print.2.length + 1 ≤ slurmAlloc S) ↔
      4 ≤ S.size ∧ ∀ c ∈ mask, c < 4 * (S.size / 4) := by
  have hfits : Fits S mask := fun c hc => (hm c hc).trans_le S.size_le_bits
  have halloc : slurmAlloc S = S.size / 4 + 3 := by rw [slurmAlloc, Nat.shiftRight_eq_div_pow]
  rw [slurmWrites_eq hfits, forall_mem_cons, prints_fit_iff nibblesFrom_lt (ne_nil_of_length_pos (by
    rw [nibblesFrom_length]
    exact Nat.succ_pos _)), nibblesFrom_length, halloc]
  change 0 + 2 + 1 ≤ _ ∧ _ ↔ _
  unfold lastGroup
  cases hlast : muGetLastCpu S mask with
  | none =>
    have hempty : ∀ c, c ∉ mask := fun c hc => by
      obtain ⟨last, -, hsome⟩ := muGetLastCpu_some hfits ⟨c, hc⟩
      rw [hlast] at hsome
      cases hsome
    rw [Option.getD_none]
    refine ⟨fun h => ⟨by omega, fun c hc => absurd hc (hempty c)⟩, fun h => by omega⟩
  | some last =>
    have hmem := muGetLastCpu_mem hlast
    rw [Option.getD_some]
    constructor
    · intro h
      refine ⟨by omega, fun c hc => ?_⟩
      have hle := muGetLastCpu_max hlast hc (hfits c hc)
      omega
    · intro h
      have hlt := h.2 last hmem
      omega

def eightCpus : System where
  sysMask := Finset.range 8
  cores := (range 8).map fun c => {c}
  disjoint := by decide
  covered := by decide

theorem muParseMask_digits_eightCpus :
    muParseMask eightCpus (muParseToSlurmFormat eightCpus {0, 1, 6}) ∅ = {0, 1, 6} :=
  (muParseMask_digits eightCpus ∅).2.2 (by decide) {0, 1, 6} (by decide)

/-- The text of eight CPUs stays in its buffer. -/
theorem slurmWrites_fit_eightCpus :
    ¬∃ print ∈ slurmWrites eightCpus {0, 1, 6}, slurmAlloc eightCpus < print.1 + print.2.length + 1 := by
  rintro ⟨print, hprint, hlt⟩
  have hfit := (slurmWrites_fit_iff eightCpus {0, 1, 6} (by decide)).mpr ⟨by decide, by decide⟩
  exact absurd (hfit print hprint) (Nat.not_le.mpr hlt)

/-- The text of the CPUs `0` and `5` of six CPUs is one byte longer than its buffer. -/
theorem slurmWrites_overflow :
    (∀ c ∈ ({0, 5} : CpuSet), c < sixCpus.size) ∧
      ¬∀ print ∈ slurmWrites sixCpus {0, 5}, print.1 + print.2.length + 1 ≤ slurmAlloc sixCpus := by
  refine ⟨by decide, fun h => ?_⟩
  exact absurd (h (3, ['1']) (by decide)) (by decide)

end Slurm

end Dlb

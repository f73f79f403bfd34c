import Dlb.Support.MaskText

/-!
# The words of a mask

The bit searches of `mask_utils.c` on the words of a `cpu_set_t`, with `ffsl` and the shifts of a word by the place of
`prev`. A shift by all bits or more has no value.

* `searchWords_eq`: a loop over words finds what the search on the sets of their bits finds;
* `nextBit_eq`: so do the searches after a CPU, and every shift has a value;
* `iteration_exact`: the first and the next CPUs are all that are set, in order, and the other two searches find the last
  CPU that is set and the next one that is not.
-/

namespace Dlb

open List

/-- `mask->__bits`, of which `mu_cpuset_num_ulongs` words are read. The CPU ids are of type `int`. -/
structure MaskWords where
  bits : ℕ → BitVec 64
  numUlongs : ℕ
  small : cpusPerUlong * numUlongs ≤ 2 ^ 31

/-- A number as an `int`. -/
def asInt (n : ℤ) : ℤ := n.bmod (2 ^ 32)

/-- A number as an `unsigned int`. -/
def asUnsigned (n : ℤ) : ℕ := (n % 2 ^ 32).toNat

/-- `ffsl` -/
def ffsl (bits : BitVec 64) : ℕ := ((range 64).find? bits.getLsbD).elim 0 (· + 1)

/-- `bits << n`, which has a value only if `n` is less than the bits of the word. -/
def shiftLeft (bits : BitVec 64) (n : ℤ) : Option (BitVec 64) :=
  if 0 ≤ n ∧ n < 64 then some (bits <<< n.toNat) else none

/-- The loop of a search over words: the id of the first CPU, or -1. -/
def searchWords (word : ℕ → Option (BitVec 64)) : List ℕ → Option ℤ
  | [] => some (-1)
  | i :: rest =>
    (word i).bind fun bits =>
      if bits ≠ 0 then some (asInt (ffsl bits - 1 + cpusPerUlong * i)) else searchWords word rest

/-- A word, in which the bits up to `prev` are masked only if `prev` belongs to it. -/
def maskedWord (bits : ℕ → BitVec 64) (prev : ℤ) (i : ℕ) : Option (BitVec 64) :=
  if 0 ≤ prev ∧ asUnsigned prev / cpusPerUlong = i then
    (shiftLeft (BitVec.allOnes 64) (prev.tmod cpusPerUlong + 1)).map (bits i &&& ·)
  else some (bits i)

/-- `while (bits >>= 1) ++cpuid` -/
def countShifts (bits : BitVec 64) (cpuid : ℤ) : ℤ :=
  if bits >>> 1 = 0 then cpuid else countShifts (bits >>> 1) (cpuid + 1)
termination_by bits.toNat
decreasing_by
  rename_i h
  have hne : (bits >>> 1).toNat ≠ 0 := fun hzero => h (BitVec.eq_of_toNat_eq hzero)
  rw [BitVec.toNat_ushiftRight, Nat.shiftRight_eq_div_pow] at *
  omega

namespace MaskWords

variable (w : MaskWords)

/-- The search of `mu_get_next_cpu` and `mu_get_next_unset`. -/
def nextBit (bits : ℕ → BitVec 64) (prev : ℤ) : Option ℤ :=
  if prev < -1 then some (-1)
  else
    let i := asUnsigned ((asInt (prev + 1)).tdiv cpusPerUlong)
    searchWords (maskedWord bits prev) (range' i (w.numUlongs - i))

/-- `mu_get_first_cpu` -/
def muGetFirstCpu : Option ℤ := searchWords (fun i => some (w.bits i)) (range' 0 w.numUlongs)

/-- `mu_get_next_cpu` -/
def muGetNextCpu (prev : ℤ) : Option ℤ := w.nextBit w.bits prev

/-- `mu_get_next_unset` -/
def muGetNextUnset (prev : ℤ) : Option ℤ := w.nextBit (fun i => ~~~w.bits i) prev

/-- The loop of `mu_get_last_cpu`. -/
def lastOf : List ℕ → ℤ
  | [] => -1
  | i :: rest => if w.bits i ≠ 0 then countShifts (w.bits i) (asInt (cpusPerUlong * i)) else lastOf rest

/-- `mu_get_last_cpu` -/
def muGetLastCpu : ℤ := w.lastOf (range w.numUlongs).reverse

def isSet (cpuid : ℕ) : Bool := (w.bits (cpuid / cpusPerUlong)).getLsbD (cpuid % cpusPerUlong)

def cpuids : List ℕ := (range (cpusPerUlong * w.numUlongs)).filter w.isSet

/-- What `for (cpuid = first; cpuid >= 0; cpuid = mu_get_next_cpu(mask, cpuid))` still visits, if the loop ends with -1. -/
inductive Visits : ℤ → List ℕ → Prop
  | done : Visits (-1) []
  | next {cpuid : ℕ} {r : ℤ} {l : List ℕ} (h : w.muGetNextCpu cpuid = some r) (hl : Visits r l) :
    Visits cpuid (cpuid :: l)

end MaskWords

def cpuidOf (r : Option ℕ) : ℤ := r.elim (-1) (↑)

/-- The search for the last number with a property. -/
def FindsLast (P : ℕ → Prop) : Option ℕ → Prop
  | some c => P c ∧ ∀ x, P x → x ≤ c
  | none => ∀ x, ¬P x

/-- What the searches answer, for every CPU that they may start from. -/
structure IterationExact (w : MaskWords) : Prop where
  visits : ∃ first, w.muGetFirstCpu = some first ∧ w.Visits first w.cpuids
  last : ∃ r, FindsLast (fun c => c < cpusPerUlong * w.numUlongs ∧ w.isSet c) r ∧ w.muGetLastCpu = cpuidOf r
  next : ∀ prev : ℤ, -1 ≤ prev → prev < 2 ^ 31 → ∃ r, w.muGetNextCpu prev = some (cpuidOf r) ∧
    Finds (fun c => c < cpusPerUlong * w.numUlongs ∧ w.isSet c ∧ prev < c) r
  nextUnset : ∀ prev : ℤ, -1 ≤ prev → prev < 2 ^ 31 → ∃ r, w.muGetNextUnset prev = some (cpuidOf r) ∧
    Finds (fun c => c < cpusPerUlong * w.numUlongs ∧ ¬w.isSet c ∧ prev < c) r

/-! ## One word -/

def wordSet (bits : BitVec 64) (i : ℕ) : CpuSet :=
  {c ∈ Finset.Ico (cpusPerUlong * i) (cpusPerUlong * (i + 1)) | bits.getLsbD (c % cpusPerUlong)}

variable {bits : BitVec 64} {i c : ℕ}

theorem mem_wordSet : c ∈ wordSet bits i ↔ c / cpusPerUlong = i ∧ bits.getLsbD (c % cpusPerUlong) := by
  rw [wordSet, Finset.mem_filter, Finset.mem_Ico]
  refine and_congr_left fun _ => ?_
  unfold cpusPerUlong
  omega

theorem exists_getLsbD (h : bits ≠ 0) : ∃ j < 64, bits.getLsbD j := by
  by_contra hno
  push Not at hno
  refine h (BitVec.eq_of_getLsbD_eq fun j hj => ?_)
  rw [Bool.eq_false_iff.mpr (hno j hj)]
  exact BitVec.getLsbD_zero.symm

theorem ffsl_finds (h : bits ≠ 0) : ∃ j < 64, ffsl bits = j + 1 ∧ bits.getLsbD j ∧ ∀ x < 64, bits.getLsbD x → j ≤ x := by
  obtain ⟨j, hj, hbit⟩ := exists_getLsbD h
  cases hfind : (range 64).find? bits.getLsbD with
  | none => exact absurd hbit (find?_eq_none.mp hfind j (mem_range.mpr hj))
  | some k =>
    obtain ⟨hk, hlt, hleast⟩ := find?_range_eq_some.mp hfind
    refine ⟨k, mem_range.mp hlt, by rw [ffsl, hfind]; rfl, hk, fun x _ hbit => ?_⟩
    by_contra hx
    simpa [hbit] using hleast x (by omega)

theorem firstBit_wordSet (bits : BitVec 64) (i : ℕ) :
    firstBit (wordSet bits i) = if bits = 0 then none else some (ffsl bits - 1 + cpusPerUlong * i) := by
  have hfinds := firstBit_finds (wordSet bits i)
  cases hr : firstBit (wordSet bits i) with
  | none =>
    rw [hr] at hfinds
    refine (if_pos ?_).symm
    by_contra h
    obtain ⟨j, hj, hbit⟩ := exists_getLsbD h
    refine hfinds (cpusPerUlong * i + j) (mem_wordSet.mpr ?_)
    rw [show (cpusPerUlong * i + j) % cpusPerUlong = j by unfold cpusPerUlong; omega]
    exact ⟨by unfold cpusPerUlong; omega, hbit⟩
  | some c =>
    rw [hr] at hfinds
    obtain ⟨hmem, hleast⟩ := hfinds
    obtain ⟨hdiv, hbit⟩ := mem_wordSet.mp hmem
    have hne : bits ≠ 0 := by rintro rfl; simp at hbit
    obtain ⟨j, hj, hffsl, hset, hfirst⟩ := ffsl_finds hne
    have hle := hfirst (c % cpusPerUlong) (Nat.mod_lt c (by decide)) hbit
    have hge := hleast (cpusPerUlong * i + j) (mem_wordSet.mpr (by
      rw [show (cpusPerUlong * i + j) % cpusPerUlong = j by unfold cpusPerUlong; omega]
      exact ⟨by unfold cpusPerUlong; omega, hset⟩))
    rw [if_neg hne, hffsl]
    unfold cpusPerUlong at *
    exact congrArg some (by omega)

theorem countShifts_finds (bits : BitVec 64) (cpuid : ℤ) (h : bits ≠ 0) :
    ∃ k : ℕ, k < 64 ∧ countShifts bits cpuid = cpuid + k ∧ bits.getLsbD k ∧ ∀ x, bits.getLsbD x → x ≤ k := by
  have hshift (x : ℕ) : (bits >>> 1).getLsbD x = bits.getLsbD (x + 1) := by
    rw [BitVec.getLsbD_ushiftRight, Nat.add_comm]
  fun_induction countShifts bits cpuid with
  | case1 bits cpuid hzero =>
    have hupper (x : ℕ) : bits.getLsbD (x + 1) = false := by rw [← hshift, hzero]; exact BitVec.getLsbD_zero
    obtain ⟨j, hj, hbit⟩ := exists_getLsbD h
    cases j with
    | zero =>
      refine ⟨0, by omega, by omega, hbit, fun x hx => ?_⟩
      cases x with
      | zero => exact Nat.le_refl 0
      | succ x => rw [hupper] at hx; cases hx
    | succ j => rw [hupper] at hbit; cases hbit
  | case2 bits cpuid hne ih =>
    obtain ⟨k, hk, heq, hbit, hlast⟩ := ih hne fun x => by rw [BitVec.getLsbD_ushiftRight, Nat.add_comm]
    rw [hshift] at hbit
    refine ⟨k + 1, BitVec.lt_of_getLsbD hbit, by rw [heq]; omega, hbit, fun x hx => ?_⟩
    cases x with
    | zero => omega
    | succ x => exact Nat.succ_le_succ (hlast x (by rwa [hshift]))

/-! ## Several words -/

theorem asInt_of_lt {n : ℕ} (h : n < 2 ^ 31) : asInt n = n := by
  unfold asInt
  rw [Int.bmod_def]
  omega

theorem searchWords_eq {word : ℕ → Option (BitVec 64)} {B : ℕ → BitVec 64} {l : List ℕ}
    (hword : ∀ i ∈ l, word i = some (B i)) (hl : ∀ i ∈ l, cpusPerUlong * i + cpusPerUlong ≤ 2 ^ 31) :
    searchWords word l = some (cpuidOf (l.findSome? fun i => firstBit (wordSet (B i) i))) := by
  induction l with
  | nil => rfl
  | cons i l ih =>
    obtain ⟨hi, hword⟩ := forall_mem_cons.mp hword
    obtain ⟨hlt, hl⟩ := forall_mem_cons.mp hl
    rw [searchWords, hi, Option.bind_some, findSome?_cons, firstBit_wordSet]
    by_cases hzero : B i = 0
    · rw [if_neg (not_not_intro hzero), if_pos hzero]
      exact ih hword hl
    · rw [if_pos hzero, if_neg hzero]
      obtain ⟨j, hj, hffsl, -, -⟩ := ffsl_finds hzero
      have hint := asInt_of_lt (n := ffsl (B i) - 1 + cpusPerUlong * i) (by unfold cpusPerUlong at *; omega)
      have hcast : ((ffsl (B i) : ℤ) - 1 + cpusPerUlong * i) = (ffsl (B i) - 1 + cpusPerUlong * i : ℕ) := by
        push_cast
        omega
      rw [hcast, hint]
      rfl

/-- A word after the CPU `p`. -/
def wordAfterCpu (B : ℕ → BitVec 64) (p i : ℕ) : BitVec 64 :=
  if p / cpusPerUlong = i then B i &&& (BitVec.allOnes 64 <<< (p % cpusPerUlong + 1)) else B i

theorem mem_wordAfterCpu {B : ℕ → BitVec 64} {p : ℕ} : c ∈ wordSet (wordAfterCpu B p (c / cpusPerUlong)) (c / cpusPerUlong) ↔
    (B (c / cpusPerUlong)).getLsbD (c % cpusPerUlong) ∧ (p / cpusPerUlong = c / cpusPerUlong → p < c) := by
  have hmod : c % cpusPerUlong < 64 := Nat.mod_lt c (by decide)
  rw [mem_wordSet, wordAfterCpu, and_iff_right rfl]
  split
  · next hword =>
    rw [BitVec.getLsbD_and, Bool.and_eq_true, BitVec.getLsbD_shiftLeft]
    refine and_congr_right fun _ => ?_
    simp only [BitVec.getLsbD_allOnes, Bool.and_eq_true, Bool.not_eq_true', decide_eq_true_eq, decide_eq_false_iff_not]
    unfold cpusPerUlong at *
    omega
  · next hword => exact ⟨fun h => ⟨h, fun heq => absurd heq hword⟩, And.left⟩

theorem maskedWord_eq (B : ℕ → BitVec 64) {p : ℕ} (hp : p < 2 ^ 31) (hi : (p + 1) / cpusPerUlong ≤ i) :
    maskedWord B p i = some (wordAfterCpu B p i) := by
  have hunsigned : asUnsigned (p : ℤ) = p := by
    unfold asUnsigned
    omega
  unfold maskedWord wordAfterCpu
  rw [hunsigned]
  by_cases hword : p / cpusPerUlong = i
  · rw [if_pos ⟨Int.natCast_nonneg p, hword⟩, if_pos hword, ← Int.ofNat_tmod, shiftLeft, if_pos (by unfold cpusPerUlong at *; omega)]
    rfl
  · rw [if_neg fun h => hword h.2, if_neg hword]

namespace MaskWords

variable (w : MaskWords)

theorem word_small (h : i < w.numUlongs) : cpusPerUlong * i + cpusPerUlong ≤ 2 ^ 31 := by
  have := w.small
  unfold cpusPerUlong at *
  omega

theorem nextBit_eq (B : ℕ → BitVec 64) (prev : ℤ) (h : -1 ≤ prev) (hlt : prev < 2 ^ 31) :
    ∃ r, w.nextBit B prev = some (cpuidOf r) ∧
      Finds (fun c => c < cpusPerUlong * w.numUlongs ∧ (B (c / cpusPerUlong)).getLsbD (c % cpusPerUlong) ∧ prev < c) r := by
  have hsmall := w.small
  obtain rfl | ⟨p, rfl⟩ : prev = -1 ∨ ∃ p : ℕ, prev = p := by
    rcases h.eq_or_lt with heq | hgt
    · exact .inl heq.symm
    · exact .inr ⟨prev.toNat, by omega⟩
  · have hstart : asUnsigned ((asInt (-1 + 1)).tdiv cpusPerUlong) = 0 := by decide
    unfold nextBit
    rw [if_neg (by omega), hstart]
    refine ⟨_, searchWords_eq (B := B) (fun i _ => if_neg fun h => absurd h.1 (by decide)) fun i hi => ?_, ?_⟩
    · exact w.word_small (by have := (mem_range'_1.mp hi).2; omega)
    · refine (findSome_finds (fun i c hc => (mem_wordSet.mp hc).1) _ _).congr fun c => ?_
      rw [mem_wordSet, and_iff_right rfl]
      unfold cpusPerUlong
      constructor
      · rintro ⟨hbit, -, hword⟩
        exact ⟨by omega, hbit, by omega⟩
      · rintro ⟨hword, hbit, -⟩
        exact ⟨hbit, by omega, by omega⟩
  · unfold nextBit
    dsimp only
    by_cases hmax : p + 1 < 2 ^ 31
    · have hstart : asUnsigned ((asInt ((p : ℤ) + 1)).tdiv cpusPerUlong) = (p + 1) / cpusPerUlong := by
        rw [← Int.natCast_succ, asInt_of_lt hmax, ← Int.ofNat_tdiv, asUnsigned]
        unfold cpusPerUlong
        omega
      rw [hstart]
      refine ⟨_, searchWords_eq (fun i hi => maskedWord_eq B (by omega) (mem_range'_1.mp hi).1) fun i hi => ?_, ?_⟩
      · exact w.word_small (by have := mem_range'_1.mp hi; omega)
      · refine (findSome_finds (fun i c hc => (mem_wordSet.mp hc).1) _ _).congr fun c => ?_
        rw [mem_wordAfterCpu]
        unfold cpusPerUlong
        constructor
        · rintro ⟨⟨hbit, hafter⟩, hle, hword⟩
          exact ⟨by omega, hbit, by omega⟩
        · rintro ⟨hword, hbit, hafter⟩
          exact ⟨⟨hbit, by omega⟩, by omega, by omega⟩
    · -- the next CPU is no `int`, and the word that its number wraps to is beyond all words
      obtain rfl : p = 2 ^ 31 - 1 := by omega
      have hstart : asUnsigned ((asInt (((2 ^ 31 - 1 : ℕ) : ℤ) + 1)).tdiv cpusPerUlong) = 2 ^ 32 - 2 ^ 25 := by decide
      have hnone : w.numUlongs - (2 ^ 32 - 2 ^ 25) = 0 := by
        unfold cpusPerUlong at hsmall
        omega
      rw [hstart, hnone, range'_zero]
      exact ⟨none, rfl, fun c hc => by omega⟩

theorem nextUnset_eq (prev : ℤ) (h : -1 ≤ prev) (hlt : prev < 2 ^ 31) : ∃ r, w.muGetNextUnset prev = some (cpuidOf r) ∧
    Finds (fun c => c < cpusPerUlong * w.numUlongs ∧ ¬w.isSet c ∧ prev < c) r := by
  obtain ⟨r, heq, hfinds⟩ := w.nextBit_eq (fun i => ~~~w.bits i) prev h hlt
  refine ⟨r, heq, hfinds.congr fun c => and_congr_right fun _ => and_congr_left fun _ => ?_⟩
  have hmod : c % cpusPerUlong < 64 := Nat.mod_lt c (by decide)
  rw [BitVec.getLsbD_not, decide_eq_true hmod, Bool.true_and, Bool.not_eq_true', ← Bool.not_eq_true]
  rfl

theorem muGetFirstCpu_eq : ∃ r, w.muGetFirstCpu = some (cpuidOf r) ∧
    Finds (fun c => c < cpusPerUlong * w.numUlongs ∧ w.isSet c) r := by
  refine ⟨_, searchWords_eq (B := w.bits) (fun _ _ => rfl) fun i hi => ?_, ?_⟩
  · exact w.word_small (by have := (mem_range'_1.mp hi).2; omega)
  · refine (findSome_finds (fun i c hc => (mem_wordSet.mp hc).1) _ _).congr fun c => ?_
    rw [mem_wordSet, and_iff_right rfl]
    unfold isSet cpusPerUlong
    constructor
    · exact fun h => ⟨by omega, h.1⟩
    · exact fun h => ⟨h.2, by omega, by omega⟩

theorem lastOf_finds (n : ℕ) (hn : n ≤ w.numUlongs) : ∃ r, FindsLast (fun c => c < cpusPerUlong * n ∧ w.isSet c) r ∧
    w.lastOf (range n).reverse = cpuidOf r := by
  induction n with
  | zero => exact ⟨none, fun c hc => absurd hc.1 (Nat.not_lt_zero c), rfl⟩
  | succ n ih =>
    have hsplit (c : ℕ) : c < cpusPerUlong * (n + 1) ↔ c < cpusPerUlong * n ∨ c / cpusPerUlong = n := by
      unfold cpusPerUlong
      omega
    rw [range_succ, reverse_append, reverse_singleton, singleton_append, lastOf]
    by_cases hzero : w.bits n = 0
    · obtain ⟨r, hr, heq⟩ := ih (by omega)
      have hno (c : ℕ) (hc : c / cpusPerUlong = n) : w.isSet c = false := by
        rw [isSet, hc, hzero]
        exact BitVec.getLsbD_zero
      have hsame (c : ℕ) : (c < cpusPerUlong * (n + 1) ∧ w.isSet c) ↔ (c < cpusPerUlong * n ∧ w.isSet c) := by
        refine and_congr_left fun hset => (hsplit c).trans (or_iff_left fun hc => ?_)
        rw [hno c hc] at hset
        cases hset
      rw [if_neg (not_not_intro hzero)]
      exact ⟨r, (funext fun c => propext (hsame c)) ▸ hr, heq⟩
    · obtain ⟨k, hk, heq, hbit, hlast⟩ := countShifts_finds (w.bits n) (asInt (cpusPerUlong * n)) hzero
      have hint := asInt_of_lt (n := cpusPerUlong * n) (by have := w.word_small hn; unfold cpusPerUlong at *; omega)
      refine ⟨some (cpusPerUlong * n + k), ⟨⟨by unfold cpusPerUlong; omega, ?_⟩, fun c ⟨hlt, hset⟩ => ?_⟩, ?_⟩
      · rw [isSet, show (cpusPerUlong * n + k) / cpusPerUlong = n by unfold cpusPerUlong; omega,
          show (cpusPerUlong * n + k) % cpusPerUlong = k by unfold cpusPerUlong; omega]
        exact hbit
      · rcases (hsplit c).mp hlt with hlt | hc
        · omega
        · rw [isSet, hc] at hset
          have := hlast _ hset
          unfold cpusPerUlong at *
          omega
      · rw [if_pos hzero, heq, ← Int.natCast_mul, hint]
        rfl

theorem visits_from (m k : ℕ) (hm : k + m = cpusPerUlong * w.numUlongs) {r : Option ℕ}
    (hr : Finds (fun c => c < cpusPerUlong * w.numUlongs ∧ w.isSet c ∧ k ≤ c) r) :
    w.Visits (cpuidOf r) ((range' k m).filter w.isSet) := by
  induction m generalizing k r with
  | zero =>
    cases r with
    | none => exact .done
    | some c => exact absurd hr.1.1 (by have := hr.1.2.2; omega)
  | succ m ih =>
    have hsmall := w.small
    rw [range'_succ]
    by_cases hset : w.isSet k
    · rw [filter_cons_of_pos hset]
      obtain rfl : r = some k := by
        cases r with
        | none => exact absurd ⟨by omega, hset, Nat.le_refl k⟩ (hr k)
        | some c => exact congrArg some (Nat.le_antisymm (hr.2 k ⟨by omega, hset, Nat.le_refl k⟩) hr.1.2.2)
      obtain ⟨r, hnext, hfinds⟩ := w.nextBit_eq w.bits k (by omega) (by omega)
      exact .next hnext (ih (k + 1) (by omega) (hfinds.congr fun c => and_congr_right fun _ => and_congr_right fun _ => by omega))
    · rw [filter_cons_of_neg hset]
      refine ih (k + 1) (by omega) (hr.congr fun c => and_congr_right fun _ => and_congr_right fun hc => ?_)
      have : c ≠ k := fun heq => hset (heq ▸ hc)
      omega

end MaskWords

/-! ## The searches on sets -/

theorem Finds.unique {P : ℕ → Prop} {r r' : Option ℕ} (h : Finds P r) (h' : Finds P r') : r = r' := by
  cases r with
  | none =>
    cases r' with
    | none => rfl
    | some c => exact absurd h'.1 (h c)
  | some c =>
    cases r' with
    | none => exact absurd h.1 (h' c)
    | some c' => exact congrArg some (Nat.le_antisymm (h.2 c' h'.1) (h'.2 c h.1))

structure MaskWords.Holds (w : MaskWords) (S : System) (mask : CpuSet) : Prop where
  bits : cpusPerUlong * w.numUlongs = S.bits
  isSet : ∀ c, w.isSet c ↔ c ∈ mask

theorem MaskWords.Holds.searches {w : MaskWords} {S : System} {mask : CpuSet} (h : w.Holds S mask) :
    w.muGetFirstCpu = some (cpuidOf (Dlb.muGetFirstCpu S mask)) ∧ ∀ prev : ℕ, prev < 2 ^ 31 →
      w.muGetNextCpu prev = some (cpuidOf (Dlb.muGetNextCpu S mask prev)) ∧
        w.muGetNextUnset prev = some (cpuidOf (Dlb.muGetNextUnset S mask prev)) := by
  obtain ⟨hbits, hset⟩ := h
  obtain ⟨r, hfirst, hr⟩ := w.muGetFirstCpu_eq
  simp only [hbits, hset] at hr
  refine ⟨hr.unique ((muGetFirstCpu_finds S mask).congr fun c => and_comm) ▸ hfirst, fun prev hprev => ⟨?_, ?_⟩⟩
  · obtain ⟨r, hnext, hr⟩ := w.nextBit_eq w.bits prev (by omega) (by omega)
    refine hr.unique ((muGetNextCpu_finds S mask prev).congr fun c => ?_) ▸ hnext
    have hc : (w.bits (c / cpusPerUlong)).getLsbD (c % cpusPerUlong) = true ↔ c ∈ mask := hset c
    rw [hc, hbits]
    exact ⟨fun ⟨hm, hlt, hb⟩ => ⟨hb, hm, Int.ofNat_lt.mpr hlt⟩, fun ⟨hb, hm, hlt⟩ => ⟨hm, Int.ofNat_lt.mp hlt, hb⟩⟩
  · obtain ⟨r, hnext, hr⟩ := w.nextUnset_eq prev (by omega) (by omega)
    refine hr.unique ((muGetNextUnset_finds S mask prev).congr fun c => ?_) ▸ hnext
    rw [hset, hbits]
    exact ⟨fun ⟨hm, hlt, hb⟩ => ⟨hb, hm, Int.ofNat_lt.mpr hlt⟩, fun ⟨hb, hm, hlt⟩ => ⟨hm, Int.ofNat_lt.mp hlt, hb⟩⟩

/-- **The searches** over the words of any mask. -/
theorem iteration_exact (w : MaskWords) : IterationExact w where
  visits := by
    obtain ⟨r, hfirst, hfinds⟩ := w.muGetFirstCpu_eq
    refine ⟨cpuidOf r, hfirst, ?_⟩
    have hvisits := w.visits_from _ 0 (Nat.zero_add _)
      (hfinds.congr fun c => by rw [and_iff_left (Nat.zero_le c)])
    rwa [← range_eq_range'] at hvisits
  last := w.lastOf_finds w.numUlongs (Nat.le_refl _)
  next := w.nextBit_eq w.bits
  nextUnset := w.nextUnset_eq

end Dlb

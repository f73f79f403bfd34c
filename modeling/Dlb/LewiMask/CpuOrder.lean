import Dlb.Omptm.FreeAgents
import Mathlib.Data.Prod.Lex

/-!
# The comparators of CPU ids

`mu_cmp_cpuids_by_ownership` and `mu_cmp_cpuids_by_affinity` sort by levels (owned or not; how many masks of a chain a CPU
is not in). In level `1` they go round: first the CPUs on cores after that of the first CPU of level `0`, then those
before it. For two CPUs that are not on the same side of that core, only the first argument is compared, with the pivot.

* `Levelled`: what the two comparators have in common;
* `Levelled.strictTotal_iff`: such a comparator is a strict total order exactly when no CPU of level `1` on the core of
  the pivot comes after the pivot or has another CPU to be told from.
-/

namespace Dlb.LewiMask

open Omptm (coreIdOf cmpCpuids muCmpCpuidsByOwnership)

/-! ## Orders -/

/-- A comparator is a strict total order on the elements of `s`. -/
structure StrictTotal (cmp : ℕ → ℕ → ℤ) (s : Finset ℕ) : Prop where
  irrefl : ∀ a ∈ s, ¬cmp a a < 0
  total : ∀ a ∈ s, ∀ b ∈ s, a ≠ b → Xor (cmp a b < 0) (cmp b a < 0)
  trans : ∀ a ∈ s, ∀ b ∈ s, ∀ c ∈ s, cmp a b < 0 → cmp b c < 0 → cmp a c < 0

theorem StrictTotal.of_key {κ : Type*} [LinearOrder κ] {cmp : ℕ → ℕ → ℤ} {s : Finset ℕ} {key : ℕ → κ}
    (hkey : Function.Injective key) (h : ∀ a ∈ s, ∀ b ∈ s, cmp a b < 0 ↔ key a < key b) : StrictTotal cmp s where
  irrefl := fun a ha hlt => lt_irrefl _ ((h a ha a ha).mp hlt)
  total := fun a ha b hb hne => by
    rw [h a ha b hb, h b hb a ha]
    rcases lt_or_gt_of_ne (hkey.ne hne) with hlt | hgt
    · exact .inl ⟨hlt, hlt.asymm⟩
    · exact .inr ⟨hgt, hgt.asymm⟩
  trans := fun a ha b hb c hc hab hbc =>
    (h a ha c hc).mpr (((h a ha b hb).mp hab).trans ((h b hb c hc).mp hbc))

/-! ## The comparators -/

/-- The level of a CPU: how many masks of the array up to the first empty one it is not in. -/
def affinityLevel (affinity : List CpuSet) (cpuid : ℕ) : ℕ := (affinity.takeWhile (0 < ·.card)).countP (cpuid ∉ ·)

/-- `mu_cmp_cpuids_by_affinity`; `affinity[0]` is only read if it is not empty. -/
def muCmpCpuidsByAffinity (S : System) (affinity : List CpuSet) (cpuid1 cpuid2 : ℕ) : ℤ :=
  let cpu1Level := affinityLevel affinity cpuid1
  let cpu2Level := affinityLevel affinity cpuid2
  if cpu1Level ≠ cpu2Level then cpu1Level - cpu2Level
  else if cpu1Level = 0 then cmpCpuids S (some cpuid1) (some cpuid2)
  else if cpu1Level = 1 then
    let firstCpu := muGetFirstCpu S (affinity.headD ∅)
    let firstCore := coreIdOf S firstCpu
    let cpu1CoreId := coreIdOf S (some cpuid1)
    let cpu2CoreId := coreIdOf S (some cpuid2)
    if firstCore < cpu1CoreId ∧ firstCore < cpu2CoreId ∨ cpu1CoreId < firstCore ∧ cpu2CoreId < firstCore then
      cmpCpuids S (some cpuid1) (some cpuid2)
    else cmpCpuids S firstCpu (some cpuid1)
  else cmpCpuids S (some cpuid1) (some cpuid2)

/-- The comparison that both make relative to the first CPU of level `0`. -/
def cmpFromFirst (S : System) (first : Option ℕ) (a b : ℕ) : ℤ :=
  if coreIdOf S first < coreIdOf S (some a) ∧ coreIdOf S first < coreIdOf S (some b) ∨
      coreIdOf S (some a) < coreIdOf S first ∧ coreIdOf S (some b) < coreIdOf S first then
    cmpCpuids S (some a) (some b)
  else cmpCpuids S first (some a)

/-- A CPU id as an `int`. -/
def idOf (cpuid : Option ℕ) : ℤ := cpuid.elim (-1) (↑)

/-- A comparator sorts by level, in level `1` relative to a first CPU, which is not of that level, and otherwise by core
id and CPU id. -/
structure Levelled (S : System) (level : ℕ → ℕ) (first : Option ℕ) (cmp : ℕ → ℕ → ℤ) : Prop where
  below : ∀ a b, level a < level b → cmp a b < 0
  above : ∀ a b, level b < level a → 0 < cmp a b
  same : ∀ a b, level a = level b →
    cmp a b = if level a = 1 then cmpFromFirst S first a b else cmpCpuids S (some a) (some b)
  pivot : ∀ a, level a = 1 → (a : ℤ) ≠ idOf first

/-- A CPU of level `1` on the core of the first CPU comes before it and has no other CPU of that level on this core or
on one before it. -/
def FirstCoreClear (S : System) (first : Option ℕ) (s : Finset ℕ) : Prop :=
  ∀ a ∈ s, coreIdOf S (some a) = coreIdOf S first →
    (a : ℤ) < idOf first ∧ ∀ b ∈ s, coreIdOf S (some b) ≤ coreIdOf S first → b = a

section Keys

variable (S : System) (level : ℕ → ℕ) (first : Option ℕ)

/-- The turn of a CPU in level `1`: after the core of the first CPU, or not. -/
def turn (c : ℕ) : ℕ := if level c = 1 ∧ coreIdOf S (some c) ≤ coreIdOf S first then 1 else 0

/-- Levels first, then turns, core ids and CPU ids. -/
def cpuKey (c : ℕ) : ℕ ×ₗ ℕ ×ₗ ℤ ×ₗ ℕ := toLex (level c, toLex (turn S level first c, toLex (coreIdOf S (some c), c)))

variable {S level first}

theorem cpuKey_injective : Function.Injective (cpuKey S level first) := by
  intro a b h
  have h1 := congrArg Prod.snd (toLex.injective h)
  have h2 := congrArg Prod.snd (toLex.injective h1)
  exact congrArg Prod.snd (toLex.injective h2)

theorem cpuKey_lt {a b : ℕ} : cpuKey S level first a < cpuKey S level first b ↔
    level a < level b ∨ level a = level b ∧ (turn S level first a < turn S level first b ∨
      turn S level first a = turn S level first b ∧ (coreIdOf S (some a) < coreIdOf S (some b) ∨
        coreIdOf S (some a) = coreIdOf S (some b) ∧ a < b)) := by
  simp only [cpuKey, Prod.Lex.toLex_lt_toLex]

theorem cmpCpuids_neg {x y : Option ℕ} : cmpCpuids S x y < 0 ↔
    coreIdOf S x < coreIdOf S y ∨ coreIdOf S x = coreIdOf S y ∧ idOf x < idOf y := by
  unfold cmpCpuids
  split_ifs with h
  · change idOf x - idOf y < 0 ↔ _
    omega
  · omega

theorem cmpCpuids_pos {x y : Option ℕ} : 0 < cmpCpuids S x y ↔
    coreIdOf S y < coreIdOf S x ∨ coreIdOf S x = coreIdOf S y ∧ idOf y < idOf x := by
  unfold cmpCpuids
  split_ifs with h
  · change 0 < idOf x - idOf y ↔ _
    omega
  · omega

theorem idOf_some (a : ℕ) : idOf (some a) = a := rfl

theorem turn_of_ne {c : ℕ} (h : level c ≠ 1) : turn S level first c = 0 := if_neg fun hc => h hc.1

theorem turn_of_eq {c : ℕ} (h : level c = 1) :
    turn S level first c = if coreIdOf S (some c) ≤ coreIdOf S first then 1 else 0 := by simp [turn, h]

end Keys

section Levelled

variable {S : System} {level : ℕ → ℕ} {first : Option ℕ} {cmp : ℕ → ℕ → ℤ} {s : Finset ℕ}

theorem rounds_neg {x y f g : ℤ} {a b : ℕ} (hxy : a = b → x = y) (ha : x = f → (a : ℤ) < g)
    (hab : x = f → y ≤ f → b = a) (hba : y = f → x ≤ f → a = b) :
    (if f < x ∧ f < y ∨ x < f ∧ y < f then x < y ∨ x = y ∧ (a : ℤ) < b else f < x ∨ f = x ∧ g < a) ↔
      (if x ≤ f then 1 else 0) < (if y ≤ f then 1 else 0) ∨
        (if x ≤ f then 1 else 0) = (if y ≤ f then 1 else 0) ∧ (x < y ∨ x = y ∧ a < b) := by
  grind

theorem rounds_pos {x y f g : ℤ} {a b : ℕ} (hx : x ≠ f) (hy : y ≠ f) :
    (if f < x ∧ f < y ∨ x < f ∧ y < f then y < x ∨ x = y ∧ (b : ℤ) < a else x < f ∨ f = x ∧ (a : ℤ) < g) ↔
      (if y ≤ f then 1 else 0) < (if x ≤ f then 1 else 0) ∨
        (if y ≤ f then 1 else 0) = (if x ≤ f then 1 else 0) ∧ (y < x ∨ y = x ∧ b < a) := by
  grind

theorem cmpFromFirst_neg {a b : ℕ} : cmpFromFirst S first a b < 0 ↔
    if coreIdOf S first < coreIdOf S (some a) ∧ coreIdOf S first < coreIdOf S (some b) ∨
        coreIdOf S (some a) < coreIdOf S first ∧ coreIdOf S (some b) < coreIdOf S first then
      coreIdOf S (some a) < coreIdOf S (some b) ∨ coreIdOf S (some a) = coreIdOf S (some b) ∧ (a : ℤ) < b
    else coreIdOf S first < coreIdOf S (some a) ∨ coreIdOf S first = coreIdOf S (some a) ∧ idOf first < a := by
  unfold cmpFromFirst
  split_ifs
  · exact cmpCpuids_neg
  · exact cmpCpuids_neg

theorem cmpFromFirst_pos {a b : ℕ} : 0 < cmpFromFirst S first a b ↔
    if coreIdOf S first < coreIdOf S (some a) ∧ coreIdOf S first < coreIdOf S (some b) ∨
        coreIdOf S (some a) < coreIdOf S first ∧ coreIdOf S (some b) < coreIdOf S first then
      coreIdOf S (some b) < coreIdOf S (some a) ∨ coreIdOf S (some a) = coreIdOf S (some b) ∧ (b : ℤ) < a
    else coreIdOf S (some a) < coreIdOf S first ∨ coreIdOf S first = coreIdOf S (some a) ∧ (a : ℤ) < idOf first := by
  unfold cmpFromFirst
  split_ifs
  · exact cmpCpuids_pos
  · exact cmpCpuids_pos

theorem Levelled.neg_iff (h : Levelled S level first cmp) (hclear : FirstCoreClear S first {c ∈ s | level c = 1}) {a b : ℕ}
    (ha : a ∈ s) (hb : b ∈ s) : cmp a b < 0 ↔ cpuKey S level first a < cpuKey S level first b := by
  rw [cpuKey_lt]
  rcases Nat.lt_trichotomy (level a) (level b) with hlt | heq | hgt
  · exact iff_of_true (h.below a b hlt) (.inl hlt)
  · have hirrefl : ¬level a < level b := heq.not_lt
    by_cases hone : level a = 1
    · have hone' : level b = 1 := heq ▸ hone
      have hamem : a ∈ ({c ∈ s | level c = 1} : Finset ℕ) := Finset.mem_filter.mpr ⟨ha, hone⟩
      have hbmem : b ∈ ({c ∈ s | level c = 1} : Finset ℕ) := Finset.mem_filter.mpr ⟨hb, hone'⟩
      rw [h.same a b heq, if_pos hone, turn_of_eq hone, turn_of_eq hone', cmpFromFirst_neg,
        rounds_neg (fun hab => hab ▸ rfl) (fun hc => (hclear a hamem hc).1) (fun hc => (hclear a hamem hc).2 b hbmem)
          (fun hc => (hclear b hbmem hc).2 a hamem), or_iff_right hirrefl, and_iff_right heq]
    · have hone' : level b ≠ 1 := heq ▸ hone
      rw [h.same a b heq, if_neg hone, cmpCpuids_neg, turn_of_ne hone, turn_of_ne hone', idOf_some, idOf_some]
      omega
  · have hpos := h.above a b hgt
    omega

theorem Levelled.pos_iff (h : Levelled S level first cmp)
    (hnone : ∀ c ∈ s, level c = 1 → coreIdOf S (some c) ≠ coreIdOf S first) {a b : ℕ} (ha : a ∈ s) (hb : b ∈ s) :
    0 < cmp a b ↔ cpuKey S level first b < cpuKey S level first a := by
  rw [cpuKey_lt]
  rcases Nat.lt_trichotomy (level a) (level b) with hlt | heq | hgt
  · have hneg := h.below a b hlt
    omega
  · have hirrefl : ¬level b < level a := heq.not_gt
    by_cases hone : level a = 1
    · have hone' : level b = 1 := heq ▸ hone
      rw [h.same a b heq, if_pos hone, turn_of_eq hone, turn_of_eq hone', cmpFromFirst_pos,
        rounds_pos (hnone a ha hone) (hnone b hb hone'), or_iff_right hirrefl, and_iff_right heq.symm]
    · have hone' : level b ≠ 1 := heq ▸ hone
      rw [h.same a b heq, if_neg hone, cmpCpuids_pos, turn_of_ne hone, turn_of_ne hone', idOf_some, idOf_some]
      omega
  · exact iff_of_true (h.above a b hgt) (.inl hgt)

theorem Levelled.strictTotal_iff (h : Levelled S level first cmp) :
    StrictTotal cmp s ↔ FirstCoreClear S first {c ∈ s | level c = 1} := by
  constructor
  · intro hs a ha hc
    -- only the first argument is compared with the pivot
    have hpivot {a b : ℕ} (hla : level a = 1) (hlb : level b = 1)
        (hcore : coreIdOf S (some a) = coreIdOf S first ∨ coreIdOf S (some b) = coreIdOf S first) :
        cmp a b < 0 ↔ coreIdOf S first < coreIdOf S (some a) ∨ coreIdOf S first = coreIdOf S (some a) ∧ idOf first < a := by
      rw [h.same a b (hla.trans hlb.symm), if_pos hla, cmpFromFirst_neg, if_neg (by omega)]
    obtain ⟨has, hla⟩ := Finset.mem_filter.mp ha
    have hbefore {c : ℕ} (hcs : c ∈ s) (hlc : level c = 1) (hcc : coreIdOf S (some c) = coreIdOf S first) :
        (c : ℤ) < idOf first := by
      have hirrefl := mt (hpivot hlc hlc (.inl hcc)).mpr (hs.irrefl c hcs)
      have hne := h.pivot c hlc
      omega
    refine ⟨hbefore has hla hc, fun b hb hbc => ?_⟩
    obtain ⟨hbs, hlb⟩ := Finset.mem_filter.mp hb
    have halt := hbefore has hla hc
    by_contra hne
    have hone := (hs.total a has b hbs (Ne.symm hne)).or
    rw [hpivot hla hlb (.inl hc), hpivot hlb hla (.inr hc)] at hone
    have hblt : coreIdOf S (some b) = coreIdOf S first → (b : ℤ) < idOf first := hbefore hbs hlb
    omega
  · exact fun hclear => .of_key cpuKey_injective fun a ha b hb => h.neg_iff hclear ha hb

end Levelled

/-! ## The two comparators -/

section Comparators

variable (S : System)

/-- Owned CPUs have level `0`, the others level `1`. -/
def ownershipLevel (processMask : CpuSet) (c : ℕ) : ℕ := if c ∈ processMask then 0 else 1

theorem ownershipLevel_eq_one {processMask : CpuSet} {c : ℕ} : ownershipLevel processMask c = 1 ↔ c ∉ processMask := by
  simp [ownershipLevel]

theorem muGetFirstCpu_mem {mask : CpuSet} {c : ℕ} (h : muGetFirstCpu S mask = some c) : c ∈ mask := by
  have hfinds := muGetFirstCpu_finds S mask
  rw [h] at hfinds
  exact hfinds.1.1

theorem ne_idOf_first {mask : CpuSet} {c : ℕ} (hc : c ∉ mask) : (c : ℤ) ≠ idOf (muGetFirstCpu S mask) := by
  intro heq
  cases hfirst : muGetFirstCpu S mask with
  | none =>
    rw [hfirst] at heq
    change (c : ℤ) = -1 at heq
    omega
  | some first =>
    rw [hfirst, idOf_some] at heq
    exact hc (Int.ofNat.inj heq ▸ muGetFirstCpu_mem S hfirst)

theorem levelled_ownership (processMask : CpuSet) : Levelled S (ownershipLevel processMask) (muGetFirstCpu S processMask)
    fun a b => muCmpCpuidsByOwnership S processMask (some a) (some b) where
  below := fun a b hlt => by
    have ha : a ∈ processMask := by
      by_contra ha
      unfold ownershipLevel at hlt
      split_ifs at hlt <;> omega
    have hb : b ∉ processMask := fun hb => by simp [ownershipLevel, ha, hb] at hlt
    simp [muCmpCpuidsByOwnership, ha, hb]
  above := fun a b hlt => by
    have hb : b ∈ processMask := by
      by_contra hb
      unfold ownershipLevel at hlt
      split_ifs at hlt <;> omega
    have ha : a ∉ processMask := fun ha => by simp [ownershipLevel, ha, hb] at hlt
    simp [muCmpCpuidsByOwnership, ha, hb]
  same := fun a b heq => by
    by_cases ha : a ∈ processMask
    · have hb : b ∈ processMask := by
        by_contra hb
        simp [ownershipLevel, ha, hb] at heq
      have hzero : ownershipLevel processMask a ≠ 1 := fun hone => ownershipLevel_eq_one.mp hone ha
      rw [if_neg hzero]
      simp [muCmpCpuidsByOwnership, ha, hb]
    · have hone := ownershipLevel_eq_one.mpr ha
      have hb : b ∉ processMask := ownershipLevel_eq_one.mp (heq ▸ hone)
      rw [if_pos hone]
      simp [muCmpCpuidsByOwnership, cmpFromFirst, ha, hb]
  pivot := fun a ha => ne_idOf_first S (ownershipLevel_eq_one.mp ha)

theorem affinityLevel_of_mem_head {affinity : List CpuSet} (hchain : (affinity.takeWhile (0 < ·.card)).IsChain (· ⊆ ·))
    {c : ℕ} (hc : c ∈ affinity.headD ∅) : affinityLevel affinity c = 0 := by
  cases affinity with
  | nil => exact absurd hc (Finset.notMem_empty c)
  | cons mask masks =>
    have hpos : decide (0 < mask.card) = true := decide_eq_true (Finset.card_pos.mpr ⟨c, hc⟩)
    have htake : (mask :: masks).takeWhile (0 < ·.card) = mask :: masks.takeWhile (0 < ·.card) :=
      List.takeWhile_cons_of_pos hpos
    rw [htake] at hchain
    have hall := (List.pairwise_cons.mp hchain.pairwise).1
    rw [affinityLevel, htake, List.countP_eq_zero]
    intro m hm
    rw [decide_eq_true_eq, not_not]
    rcases List.mem_cons.mp hm with rfl | hm
    · exact hc
    · exact hall m hm hc

theorem levelled_affinity {affinity : List CpuSet} (hchain : (affinity.takeWhile (0 < ·.card)).IsChain (· ⊆ ·)) :
    Levelled S (affinityLevel affinity) (muGetFirstCpu S (affinity.headD ∅)) (muCmpCpuidsByAffinity S affinity) where
  below := fun a b hlt => by
    unfold muCmpCpuidsByAffinity
    rw [if_pos hlt.ne]
    omega
  above := fun a b hlt => by
    unfold muCmpCpuidsByAffinity
    rw [if_pos hlt.ne']
    omega
  same := fun a b heq => by
    unfold muCmpCpuidsByAffinity
    rw [if_neg (not_not.mpr heq)]
    by_cases hzero : affinityLevel affinity a = 0
    · rw [if_pos hzero, if_neg (by omega)]
    · rw [if_neg hzero]
      rfl
  pivot := fun a ha => ne_idOf_first S fun hc => by
    rw [affinityLevel_of_mem_head hchain hc] at ha
    cases ha

/-- **The comparators are orders** on the CPUs of a system if and only if in both of them the core of the first CPU is
clear: every other CPU on that core that is not of level `0` is before it and the only one of level `1` that far. -/
theorem comparators_strictTotal_iff (processMask : CpuSet) (affinity : List CpuSet)
    (hchain : (affinity.takeWhile (0 < ·.card)).IsChain (· ⊆ ·)) :
    StrictTotal (fun a b => muCmpCpuidsByOwnership S processMask (some a) (some b)) S.sysMask ∧
        StrictTotal (muCmpCpuidsByAffinity S affinity) S.sysMask ↔
      FirstCoreClear S (muGetFirstCpu S processMask) {c ∈ S.sysMask | c ∉ processMask} ∧
        FirstCoreClear S (muGetFirstCpu S (affinity.headD ∅)) {c ∈ S.sysMask | affinityLevel affinity c = 1} := by
  rw [(levelled_ownership S processMask).strictTotal_iff, (levelled_affinity S hchain).strictTotal_iff]
  simp only [ownershipLevel_eq_one]

end Comparators

def twoCores : System where
  sysMask := {0, 1, 2, 3}
  cores := [{0, 1}, {2, 3}]
  disjoint := by decide
  covered := by decide
  nodes := [{0, 1, 2, 3}]

/-- A process with the last CPU of the first core, whose other CPU is before it. -/
theorem comparators_strictTotal_twoCores :
    StrictTotal (fun a b => muCmpCpuidsByOwnership twoCores {1} (some a) (some b)) twoCores.sysMask ∧
      StrictTotal (muCmpCpuidsByAffinity twoCores [{1}, {0, 1, 2, 3}, ∅]) twoCores.sysMask :=
  (comparators_strictTotal_iff twoCores {1} [{1}, {0, 1, 2, 3}, ∅] (by decide)).mpr
    ⟨by unfold FirstCoreClear; decide, by unfold FirstCoreClear; decide⟩

/-- A process with the first CPU of a core: the other one is less than itself. -/
theorem sibling_below_itself :
    ([({0} : CpuSet), {0, 1, 2, 3}, ∅].takeWhile (0 < ·.card)).IsChain (· ⊆ ·) ∧
      ¬(StrictTotal (fun a b => muCmpCpuidsByOwnership twoCores {0} (some a) (some b)) twoCores.sysMask ∧
        StrictTotal (muCmpCpuidsByAffinity twoCores [{0}, {0, 1, 2, 3}, ∅]) twoCores.sysMask) := by
  refine ⟨by decide, fun h => ?_⟩
  exact h.1.irrefl 1 (by decide) (by decide)

end Dlb.LewiMask

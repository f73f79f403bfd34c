import Mathlib.Algebra.BigOperators.Intervals
import Dlb.Lib.Buffer
import Dlb.Lib.Table
import Dlb.Mngo.Coherence

/-!
# The balancer never overshoots a request

* The private array starts with one share at each level up to the one of the request, level 0 included. Packing moves
  shares down and a match takes those of one level from 1 on, so what has been taken and what is left always add up,
  and the share at level 0 is never taken (`Within`, `play_within`): at most the request is taken.
* `Checked` is the same code on arrays whose bounds are checked; it always returns, with the same result
  (`Checked.mngoBalancer_eq`).
-/

namespace Dlb.Mngo

open Function

/-- The invariant of a private run of a process that asked for `my` cores, with what it has taken and the shares it has
left. -/
structure Within (giver : Bool) (my : ℕ) (d : ℤ) (shares : LevelArray) : Prop where
  bounded : Bounded my shares
  nonneg : ∀ l, 0 ≤ shares l
  zero : 1 ≤ shares 0
  taken : 0 ≤ (if giver then -d else d)
  total : (if giver then -d else d) + ∑ l ∈ Finset.range (my + 1), shares l = my + 1

def Event.Positive : Event → Prop
  | .packAdd level _ | .packSub level _ => 1 ≤ level
  | .matched lAdd lSub => 1 ≤ lAdd ∧ 1 ≤ lSub

section Run

variable {giver : Bool} {my level : ℕ} {d : ℤ} {shares : LevelArray}

theorem shift_nonneg (h : ∀ l, 0 ≤ shares l) (l : ℕ) : 0 ≤ shift level shares l := by
  unfold shift
  rw [update_apply]
  split
  · exact le_refl 0
  · rw [update_apply]
    split
    · exact add_nonneg (h _) (h _)
    · exact h l

theorem sum_put (shares : LevelArray) (v : ℤ) (h : level ≤ my) :
    ∑ l ∈ Finset.range (my + 1), update shares level v l =
      ∑ l ∈ Finset.range (my + 1), shares l + (v - shares level) :=
  Lib.sum_update_sub (Finset.range (my + 1)) shares id v (Finset.mem_range.mpr (Nat.lt_succ_of_le h))

theorem sum_shift (hlevel : 1 ≤ level) (hb : Bounded my shares) :
    ∑ l ∈ Finset.range (my + 1), shift level shares l = ∑ l ∈ Finset.range (my + 1), shares l := by
  rcases Nat.lt_or_ge my level with h | h
  · rw [shift_of_zero (hb level h)]
  · unfold shift
    rw [sum_put _ _ h, sum_put _ _ (by omega : level - 1 ≤ my), update_of_ne (by omega)]
    omega

theorem Within.shift (h : Within giver my d shares) (hlevel : 1 ≤ level) :
    Within giver my d (shift level shares) where
  bounded := (packLevels_snd shares level h.bounded).2
  nonneg := shift_nonneg h.nonneg
  zero := by
    have hzero := h.zero
    have hnonneg := h.nonneg level
    unfold Mngo.shift
    rw [update_of_ne (by omega), update_apply]
    split
    · rename_i heq
      rw [← heq]
      exact le_add_of_le_of_nonneg hzero hnonneg
    · exact hzero
  taken := h.taken
  total := by
    rw [sum_shift hlevel h.bounded]
    exact h.total

theorem Within.take (h : Within giver my d shares) (hlevel : 1 ≤ level) :
    Within giver my (if giver then d - shares level else d + shares level) (update shares level 0) where
  bounded l hl := by
    rw [update_apply]
    split
    · rfl
    · exact h.bounded l hl
  nonneg l := by
    rw [update_apply]
    split
    · exact le_refl 0
    · exact h.nonneg l
  zero := by
    rw [update_of_ne (by omega)]
    exact h.zero
  taken := by
    have htaken := h.taken
    have hnonneg := h.nonneg level
    cases giver <;> simp only [if_true, Bool.false_eq_true, if_false] at htaken ⊢ <;> omega
  total := by
    have htotal := h.total
    have hsum : ∑ l ∈ Finset.range (my + 1), update shares level 0 l + shares level =
        ∑ l ∈ Finset.range (my + 1), shares l := by
      rcases Nat.lt_or_ge my level with hlt | hge
      · have hzero := h.bounded level hlt
        have hsame : update shares level 0 = shares := by rw [← hzero, update_eq_self]
        rw [hsame, hzero, add_zero]
      · rw [sum_put shares 0 hge]
        omega
    cases giver <;> simp only [if_true, Bool.false_eq_true, if_false] at htotal ⊢ <;> omega

theorem play_within {p : ℤ × LevelArray} {e : Event} (he : e.Positive) (h : Within giver my p.1 p.2) :
    Within giver my (play giver p e).1 (play giver p e).2 := by
  cases e with
  | packAdd level _ => exact h.shift he
  | packSub level _ => exact h.shift he
  | matched lAdd lSub =>
    cases giver with
    | true => exact h.take he.2
    | false => exact h.take he.1

theorem foldl_play_within (events : List Event) (he : ∀ e ∈ events, e.Positive) {p : ℤ × LevelArray}
    (h : Within giver my p.1 p.2) :
    Within giver my (events.foldl (play giver) p).1 (events.foldl (play giver) p).2 := by
  induction events generalizing p with
  | nil => exact h
  | cons e events ih =>
    exact ih (fun e' he' => he e' (List.mem_cons_of_mem _ he')) (play_within (he e List.mem_cons_self) h)

theorem shares_within (giver : Bool) (delta : ℤ) : Within giver delta.natAbs 0 (Mngo.shares delta) where
  bounded l hl := if_neg (by omega)
  nonneg l := by
    unfold Mngo.shares
    split <;> decide
  zero := by simp [Mngo.shares]
  taken := by cases giver <;> decide
  total := by
    have hone : ∀ l ∈ Finset.range (delta.natAbs + 1), Mngo.shares delta l = 1 := fun l hl =>
      if_pos (Nat.lt_succ_iff.mp (Finset.mem_range.mp hl))
    rw [Finset.sum_congr rfl hone]
    cases giver <;> simp

theorem Within.taken_le (h : Within giver my d shares) : (if giver then -d else d) ≤ my := by
  have htotal := h.total
  have hzero := h.zero
  have hle : shares 0 ≤ ∑ l ∈ Finset.range (my + 1), shares l :=
    Finset.single_le_sum (fun l _ => h.nonneg l) (Finset.mem_range.mpr (Nat.succ_pos my))
  omega

end Run

/-! ## The events of a matching -/

theorem findEvents_positive {lAdd : ℕ} (hl : 1 ≤ lAdd) (n : ℕ) (k : Counts) :
    ∀ e ∈ (findEvents lAdd n k).1, e.Positive := by
  induction n generalizing k with
  | zero => nofun
  | succ n ih =>
    unfold findEvents
    split
    · exact ih k
    split
    · exact List.forall_mem_singleton.mpr hl
    split
    · exact List.forall_mem_cons.mpr ⟨Nat.succ_pos n, ih _⟩
    split
    · exact List.forall_mem_singleton.mpr ⟨hl, Nat.succ_pos n⟩
    · exact ih k

theorem levelEvents_positive (countSize lAdd : ℕ) (k : Counts) : ∀ e ∈ levelEvents countSize lAdd k, e.Positive := by
  induction lAdd generalizing k with
  | zero => nofun
  | succ lAdd ih =>
    unfold levelEvents
    split
    · exact ih k
    · intro e he
      rcases List.mem_append.mp he with he | he
      · exact findEvents_positive (Nat.succ_pos lAdd) countSize k e he
      · exact ih _ e he

theorem mngoBalancer_within (deltas : List ℤ) {id : ℕ} (hid : id < deltas.length) :
    (0 ≤ deltas.getD id 0 → 0 ≤ mngoBalancer id deltas ∧ mngoBalancer id deltas ≤ deltas.getD id 0) ∧
    (deltas.getD id 0 < 0 → deltas.getD id 0 ≤ mngoBalancer id deltas ∧ mngoBalancer id deltas ≤ 0) := by
  rw [mngoBalancer_eq deltas hid]
  have hwithin := foldl_play_within (p := (0, shares (deltas.getD id 0))) (balancerEvents deltas)
    (levelEvents_positive _ _ _) (shares_within (decide (deltas.getD id 0 < 0)) (deltas.getD id 0))
  have htaken := hwithin.taken
  have hle := hwithin.taken_le
  constructor
  · intro hsign
    rw [decide_eq_false (not_lt.mpr hsign)] at htaken hle ⊢
    simp only [Bool.false_eq_true, if_false] at htaken hle
    omega
  · intro hsign
    rw [decide_eq_true hsign] at htaken hle ⊢
    simp only [if_true] at htaken hle
    omega

/-! ## The code with checked bounds -/

namespace Checked

open Lib (Buffer)

/-- `count[l]++` -/
def increment (count : Buffer ℤ) (l : ℕ) : Option (Buffer ℤ) := do
  count.write l ((← count.read l) + 1)

/-- `for (l = 0; l <= top; l++) count[l]++` -/
def countUpTo (count : Buffer ℤ) : (top : ℕ) → Option (Buffer ℤ)
  | 0 => increment count 0
  | top + 1 => do increment (← countUpTo count top) (top + 1)

structure Levels where
  finalCountSize : ℕ
  countAdd : Buffer ℤ
  countSub : Buffer ℤ

/-- The body of the loop of `precompute_levels` for one delta. -/
def countDelta (countSize : ℕ) (levels : Levels) (delta : ℤ) : Option Levels := do
  if delta = 0 then return levels
  let satAbsDelta := if delta.natAbs < countSize then delta.natAbs else countSize
  let finalCountSize := if levels.finalCountSize < satAbsDelta then satAbsDelta else levels.finalCountSize
  if 0 < delta then
    return { levels with finalCountSize := finalCountSize, countAdd := ← countUpTo levels.countAdd satAbsDelta }
  else
    return { levels with finalCountSize := finalCountSize, countSub := ← countUpTo levels.countSub satAbsDelta }

/-- `precompute_levels` -/
def precomputeLevels (deltas : List ℤ) (countAdd countSub : Buffer ℤ) (countSize : ℕ) : Option Levels :=
  deltas.foldlM (countDelta countSize) ⟨0, countAdd, countSub⟩

/-- `array[level - 1] += array[level]; array[level] = 0` -/
def pack (array : Buffer ℤ) (level : ℕ) : Option (Buffer ℤ) := do
  let array1 ← array.write (level - 1) ((← array.read (level - 1)) + (← array.read level))
  array1.write level 0

/-- `pack_levels` -/
def packLevels (myAbsDelta : ℕ) (levels deltas : Buffer ℤ) (level : ℕ) : Option (Buffer ℤ × Buffer ℤ) := do
  let levels₁ ← pack levels level
  let deltas₁ ← (if level ≤ myAbsDelta then pack deltas level else some deltas)
  let top ← levels₁.read 0
  let below ← levels₁.read (level - 1)
  let levels₂ ← (if top < below then levels₁.write 0 below else some levels₁)
  return (levels₂, deltas₁)

/-- The variables of `coherent_redistribution`. -/
structure Redistribution where
  countAdd : Buffer ℤ
  countSub : Buffer ℤ
  groupDeltas : Buffer ℤ

/-- The inner loop of `coherent_redistribution`. -/
def findMatch (myAbsDelta lAdd : ℕ) : (lSub : ℕ) → Redistribution → Option (Option ℕ × Redistribution)
  | 0, r => some (none, r)
  | lSub + 1, r => do
    let givers ← r.countSub.read (lSub + 1)
    if givers = 0 then findMatch myAbsDelta lAdd lSub r
    else if (← r.countAdd.read 0) < givers then
      let packed ← packLevels myAbsDelta r.countAdd r.groupDeltas lAdd
      return (none, { r with countAdd := packed.1, groupDeltas := packed.2 })
    else
      let takers ← r.countAdd.read lAdd
      if (← r.countSub.read 0) < takers then
        let packed ← packLevels myAbsDelta r.countSub r.groupDeltas (lSub + 1)
        findMatch myAbsDelta lAdd lSub { r with countSub := packed.1, groupDeltas := packed.2 }
      else if takers = givers then
        return (some (lSub + 1), { r with countAdd := ← r.countAdd.write lAdd 0,
                                          countSub := ← r.countSub.write (lSub + 1) 0 })
      else findMatch myAbsDelta lAdd lSub r

/-- What a match of `lAdd` and `lSub` changes for one process. -/
def takeShare (iAmAGiver : Bool) (myAbsDelta lAdd lSub : ℕ) (myCoherentDelta : ℤ) (groupDeltas : Buffer ℤ) :
    Option (ℤ × Buffer ℤ) := do
  if iAmAGiver then
    if lSub ≤ myAbsDelta then
      return (myCoherentDelta - (← groupDeltas.read lSub), ← groupDeltas.write lSub 0)
    else return (myCoherentDelta, groupDeltas)
  else
    if lAdd ≤ myAbsDelta then
      return (myCoherentDelta + (← groupDeltas.read lAdd), ← groupDeltas.write lAdd 0)
    else return (myCoherentDelta, groupDeltas)

/-- The outer loop of `coherent_redistribution`. -/
def matchLevels (iAmAGiver : Bool) (myAbsDelta countSize : ℕ) : (lAdd : ℕ) → ℤ → Redistribution → Option ℤ
  | 0, myCoherentDelta, _ => some myCoherentDelta
  | lAdd + 1, myCoherentDelta, r => do
    if (← r.countAdd.read (lAdd + 1)) = 0 then matchLevels iAmAGiver myAbsDelta countSize lAdd myCoherentDelta r
    else
      match ← findMatch myAbsDelta (lAdd + 1) countSize r with
      | (none, r1) => matchLevels iAmAGiver myAbsDelta countSize lAdd myCoherentDelta r1
      | (some lSub, r1) =>
        let share ← takeShare iAmAGiver myAbsDelta (lAdd + 1) lSub myCoherentDelta r1.groupDeltas
        matchLevels iAmAGiver myAbsDelta countSize lAdd share.1 { r1 with groupDeltas := share.2 }

/-- `for (i = 0; i <= top; i++) group_deltas[i] = 1` -/
def fillUpTo (groupDeltas : Buffer ℤ) : (top : ℕ) → Option (Buffer ℤ)
  | 0 => groupDeltas.write 0 1
  | top + 1 => do (← fillUpTo groupDeltas top).write (top + 1) 1

/-- `coherent_redistribution` -/
def coherentRedistribution (iAmAGiver : Bool) (myAbsDelta : ℕ) (countAdd countSub : Buffer ℤ) (countSize : ℕ) :
    Option ℤ := do
  let groupDeltas ← fillUpTo ⟨countSize + 1, fun _ => 0⟩ (min countSize myAbsDelta)
  matchLevels iAmAGiver myAbsDelta countSize countSize 0 ⟨countAdd, countSub, groupDeltas⟩

/-- `mngo_balancer` -/
def mngoBalancer (id : ℕ) (deltas : List ℤ) : Option ℤ := do
  let max := maxAbsDelta deltas
  let levels ← precomputeLevels deltas ⟨max + 1, fun _ => 0⟩ ⟨max + 1, fun _ => 0⟩ max
  let self ← deltas[id]?
  coherentRedistribution (self < 0) self.natAbs levels.countAdd levels.countSub levels.finalCountSize

section Bounds

variable {n m level top lAdd lSub my : ℕ} {a b : LevelArray}

theorem increment_eq (h : level < n) :
    increment ⟨n, a⟩ level = some ⟨n, update a level (a level + 1)⟩ := by
  unfold increment
  rw [Buffer.read_of_lt h]
  exact Buffer.write_of_lt h _

theorem countUpTo_eq (h : top < n) : countUpTo ⟨n, a⟩ top = some ⟨n, Mngo.countUpTo a top⟩ := by
  induction top with
  | zero =>
    rw [countUpTo, increment_eq h]
    refine congrArg (fun c => some (Buffer.mk n c)) (funext fun l => ?_)
    simp only [Mngo.countUpTo, Nat.le_zero, update_apply]
    split
    · rename_i hl
      rw [hl]
    · rfl
  | succ top ih =>
    rw [countUpTo, ih (by omega)]
    refine (increment_eq h).trans (congrArg (fun c => some (Buffer.mk n c)) (funext fun l => ?_))
    simp only [Mngo.countUpTo, update_apply]
    by_cases hl : l = top + 1
    · rw [if_pos hl, if_neg (by omega), if_pos (by omega), hl]
    · rw [if_neg hl]
      by_cases hle : l ≤ top
      · rw [if_pos hle, if_pos (by omega)]
      · rw [if_neg hle, if_neg (by omega)]

def ofLevels (n : ℕ) (levels : Mngo.Levels) : Levels :=
  ⟨levels.finalCountSize, ⟨n, levels.countAdd⟩, ⟨n, levels.countSub⟩⟩

theorem countDelta_eq {countSize : ℕ} (h : countSize < n) (levels : Mngo.Levels) (delta : ℤ) :
    countDelta countSize (ofLevels n levels) delta = some (ofLevels n (Mngo.countDelta countSize levels delta)) := by
  have htop : (if delta.natAbs < countSize then delta.natAbs else countSize) < n := by split <;> omega
  unfold countDelta Mngo.countDelta ofLevels
  dsimp only
  rw [countUpTo_eq htop, countUpTo_eq htop]
  by_cases hzero : delta = 0
  · simp only [if_pos hzero]
    rfl
  · simp only [if_neg hzero]
    by_cases hpos : 0 < delta
    · simp only [if_pos hpos]
      rfl
    · simp only [if_neg hpos]
      rfl

theorem precomputeLevels_eq {countSize : ℕ} (h : countSize < n) (deltas : List ℤ) :
    precomputeLevels deltas ⟨n, fun _ => 0⟩ ⟨n, fun _ => 0⟩ countSize =
      some (ofLevels n (Mngo.precomputeLevels deltas countSize)) := by
  have hfold : ∀ levels : Mngo.Levels, deltas.foldlM (countDelta countSize) (ofLevels n levels) =
      some (ofLevels n (deltas.foldl (Mngo.countDelta countSize) levels)) := by
    induction deltas with
    | nil => exact fun _ => rfl
    | cons delta deltas ih =>
      intro levels
      rw [List.foldlM_cons, countDelta_eq h]
      exact ih _
  exact hfold {}

theorem pack_eq (h : level < n) : pack ⟨n, a⟩ level = some ⟨n, shift level a⟩ := by
  unfold pack
  rw [Buffer.read_of_lt h, Buffer.read_of_lt (by omega : level - 1 < n)]
  show (Buffer.write ⟨n, a⟩ (level - 1) _).bind _ = _
  rw [Buffer.write_of_lt (by omega : level - 1 < n)]
  exact Buffer.write_of_lt h 0

theorem packLevels_eq (hn : level < n) (hm : level ≤ my → level < m) : packLevels my ⟨n, a⟩ ⟨m, b⟩ level =
    some (⟨n, (Mngo.packLevels my a b level).1⟩, ⟨m, (Mngo.packLevels my a b level).2⟩) := by
  have hdeltas : (if level ≤ my then pack ⟨m, b⟩ level else some ⟨m, b⟩) =
      some ⟨m, (Mngo.packLevels my a b level).2⟩ := by
    unfold Mngo.packLevels
    split
    · rename_i hle
      exact pack_eq (hm hle)
    · rfl
  unfold packLevels
  rw [pack_eq hn, hdeltas]
  simp only [Option.bind_eq_bind, Option.bind_some, Buffer.read_of_lt (by omega : 0 < n),
    Buffer.read_of_lt (by omega : level - 1 < n), Buffer.write_of_lt (by omega : 0 < n)]
  unfold Mngo.packLevels shift
  dsimp only
  split
  · rfl
  · rfl

/-- The variables of the loops, with the sizes of the arrays. -/
def ofRedistribution (n m : ℕ) (r : Mngo.Redistribution) : Redistribution :=
  ⟨⟨n, r.countAdd⟩, ⟨n, r.countSub⟩, ⟨m, r.groupDeltas⟩⟩

theorem findMatch_eq (hmn : m ≤ n) (hadd : lAdd < m) (hsub : lSub < m) (r : Mngo.Redistribution) :
    findMatch my lAdd lSub (ofRedistribution n m r) =
      some ((Mngo.findMatch my lAdd lSub r).1, ofRedistribution n m (Mngo.findMatch my lAdd lSub r).2) := by
  induction lSub generalizing r with
  | zero => rfl
  | succ lSub ih =>
    unfold findMatch Mngo.findMatch ofRedistribution
    rw [Buffer.read_of_lt (by omega : lSub + 1 < n), Buffer.read_of_lt (by omega : 0 < n),
      Buffer.read_of_lt (by omega : lAdd < n), Buffer.read_of_lt (by omega : 0 < n),
      packLevels_eq (by omega : lAdd < n) (fun _ => hadd), packLevels_eq (by omega : lSub + 1 < n) (fun _ => hsub),
      Buffer.write_of_lt (by omega : lAdd < n), Buffer.write_of_lt (by omega : lSub + 1 < n)]
    simp only [Option.bind_eq_bind, Option.bind_some]
    split
    · exact ih (by omega) r
    split
    · rfl
    split
    · exact ih (by omega) ⟨r.countAdd, (Mngo.packLevels my r.countSub r.groupDeltas (lSub + 1)).1,
        (Mngo.packLevels my r.countSub r.groupDeltas (lSub + 1)).2⟩
    split
    · rfl
    · exact ih (by omega) r

theorem findMatch_le {r : Mngo.Redistribution} {l : ℕ} (h : (Mngo.findMatch my lAdd lSub r).1 = some l) : l ≤ lSub := by
  induction lSub generalizing r with
  | zero => cases h
  | succ lSub ih =>
    unfold Mngo.findMatch at h
    split at h
    · exact (ih h).trans (Nat.le_succ _)
    split at h
    · cases h
    split at h
    · exact (ih h).trans (Nat.le_succ _)
    split at h
    · exact (Option.some.inj h).symm.le
    · exact (ih h).trans (Nat.le_succ _)

theorem takeShare_eq (giver : Bool) (hadd : lAdd < m) (hsub : lSub < m) (d : ℤ) :
    takeShare giver my lAdd lSub d ⟨m, b⟩ =
      some ((Mngo.takeShare giver my lAdd lSub d b).1, ⟨m, (Mngo.takeShare giver my lAdd lSub d b).2⟩) := by
  unfold takeShare Mngo.takeShare
  rw [Buffer.read_of_lt hadd, Buffer.read_of_lt hsub, Buffer.write_of_lt hadd, Buffer.write_of_lt hsub]
  cases giver with
  | true =>
    by_cases hle : lSub ≤ my
    · simp only [if_true, if_pos hle]
      rfl
    · simp only [if_true, if_neg hle]
      rfl
  | false =>
    by_cases hle : lAdd ≤ my
    · simp only [Bool.false_eq_true, if_false, if_pos hle]
      rfl
    · simp only [Bool.false_eq_true, if_false, if_neg hle]
      rfl

theorem matchLevels_eq (giver : Bool) {countSize : ℕ} (hn : countSize < n) (hadd : lAdd ≤ countSize) (d : ℤ)
    (r : Mngo.Redistribution) : matchLevels giver my countSize lAdd d (ofRedistribution n (countSize + 1) r) =
      some (Mngo.matchLevels giver my countSize lAdd d r) := by
  induction lAdd generalizing d r with
  | zero => rfl
  | succ lAdd ih =>
    unfold matchLevels Mngo.matchLevels
    rw [show (ofRedistribution n (countSize + 1) r).countAdd.read (lAdd + 1) = some (r.countAdd (lAdd + 1)) from
      Buffer.read_of_lt (by omega), findMatch_eq (by omega) (by omega) (by omega)]
    simp only [Option.bind_eq_bind, Option.bind_some]
    split
    · exact ih (by omega) d r
    · have hle : ∀ l, (Mngo.findMatch my (lAdd + 1) countSize r).1 = some l → l ≤ countSize := fun _ => findMatch_le
      generalize Mngo.findMatch my (lAdd + 1) countSize r = found at hle ⊢
      obtain ⟨o, r1⟩ := found
      cases o with
      | none => exact ih (by omega) d r1
      | some lSub =>
        have hsub : lSub ≤ countSize := hle lSub rfl
        show (takeShare giver my (lAdd + 1) lSub d ⟨countSize + 1, r1.groupDeltas⟩).bind _ = _
        rw [takeShare_eq giver (by omega) (by omega)]
        exact ih (by omega) (Mngo.takeShare giver my (lAdd + 1) lSub d r1.groupDeltas).1
          { r1 with groupDeltas := (Mngo.takeShare giver my (lAdd + 1) lSub d r1.groupDeltas).2 }

theorem fillUpTo_eq (h : top < m) :
    fillUpTo ⟨m, fun _ => 0⟩ top = some ⟨m, fun i => if i ≤ top then 1 else 0⟩ := by
  induction top with
  | zero =>
    refine (Buffer.write_of_lt h 1).trans (congrArg (fun c => some (Buffer.mk m c)) (funext fun i => ?_))
    simp only [update_apply, Nat.le_zero]
  | succ top ih =>
    rw [fillUpTo, ih (by omega)]
    refine (Buffer.write_of_lt h 1).trans (congrArg (fun c => some (Buffer.mk m c)) (funext fun i => ?_))
    rw [update_apply]
    by_cases hi : i = top + 1
    · rw [if_pos hi, if_pos (by omega)]
    · rw [if_neg hi]
      by_cases hle : i ≤ top
      · rw [if_pos hle, if_pos (by omega)]
      · rw [if_neg hle, if_neg (by omega)]

theorem coherentRedistribution_eq (giver : Bool) {countSize : ℕ} (hn : countSize < n) :
    coherentRedistribution giver my ⟨n, a⟩ ⟨n, b⟩ countSize =
      some (Mngo.coherentRedistribution giver my a b countSize) := by
  unfold coherentRedistribution Mngo.coherentRedistribution
  rw [fillUpTo_eq (by omega : min countSize my < countSize + 1)]
  simp only [Nat.le_min]
  exact matchLevels_eq giver hn le_rfl 0 ⟨a, b, _⟩

theorem finalCountSize_le (deltas : List ℤ) (countSize : ℕ) :
    (Mngo.precomputeLevels deltas countSize).finalCountSize ≤ countSize := by
  have hfold : ∀ levels : Mngo.Levels, levels.finalCountSize ≤ countSize →
      (deltas.foldl (Mngo.countDelta countSize) levels).finalCountSize ≤ countSize := by
    induction deltas with
    | nil => exact fun _ h => h
    | cons delta deltas ih =>
      intro levels h
      refine ih _ ?_
      rw [countDelta_size]
      omega
  exact hfold {} (Nat.zero_le _)

theorem mngoBalancer_eq {id : ℕ} {deltas : List ℤ} (hid : id < deltas.length) :
    mngoBalancer id deltas = some (Mngo.mngoBalancer id deltas) := by
  unfold mngoBalancer Mngo.mngoBalancer
  dsimp only
  rw [precomputeLevels_eq (Nat.lt_succ_self _), List.getElem?_eq_getElem hid, List.getD_eq_getElem?_getD,
    List.getElem?_eq_getElem hid]
  exact coherentRedistribution_eq _ (Nat.lt_succ_of_le (finalCountSize_le deltas _))

end Bounds

end Checked

/-- **The balancer never overshoots a request**, and makes no access out of bounds: its result has the sign of the
request and is no larger. So a giver whose wish keeps a core keeps one. -/
theorem balancer_never_overshoots (deltas : List ℤ) (id : ℕ) (hid : id < deltas.length) :
    ∃ r, Checked.mngoBalancer id deltas = some r ∧ r = mngoBalancer id deltas ∧
      (0 ≤ deltas.getD id 0 → 0 ≤ r ∧ r ≤ deltas.getD id 0) ∧
      (deltas.getD id 0 < 0 → deltas.getD id 0 ≤ r ∧ r ≤ 0 ∧
        ∀ ncores : ℤ, 1 ≤ ncores + deltas.getD id 0 → 1 ≤ ncores + r) := by
  obtain ⟨htaker, hgiver⟩ := mngoBalancer_within deltas hid
  refine ⟨_, Checked.mngoBalancer_eq hid, rfl, htaker, fun hsign => ?_⟩
  obtain ⟨hle, hnonpos⟩ := hgiver hsign
  exact ⟨hle, hnonpos, fun ncores hkeeps => by omega⟩

/-- Two cores and one are given where three are taken. -/
theorem balancer_never_overshoots_three : ∃ r, Checked.mngoBalancer 0 [3, -2, -1] = some r ∧ 0 ≤ r ∧ r ≤ 3 :=
  let ⟨r, h, _, ht, _⟩ := balancer_never_overshoots [3, -2, -1] 0 (by decide)
  ⟨r, h, ht (by decide)⟩

end Dlb.Mngo

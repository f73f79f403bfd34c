import Mathlib.Algebra.BigOperators.Group.List.Basic
import Mathlib.Algebra.Order.Group.Int

/-!
# The MNGO balancer

`mngo_balancer.c`: every process passes the number of cores it wants to give (negative) or to take (positive), and
every process computes alone by how many cores it changes. The arrays of `int` are functions from levels; the counters
count processes and are not bounded here.
-/

namespace Dlb.Mngo

open Function

/-- An array of `int`, indexed by level. -/
abbrev LevelArray := ℕ → ℤ

/-- `pack_levels`: the array of the levels and the private array. -/
def packLevels (myAbsDelta : ℕ) (levels deltas : LevelArray) (level : ℕ) : LevelArray × LevelArray :=
  -- pack the level
  let levels₁ := update (update levels (level - 1) (levels (level - 1) + levels level)) level 0
  -- if our level is within range we pack the deltas too
  let deltas₁ :=
    if level ≤ myAbsDelta then
      update (update deltas (level - 1) (deltas (level - 1) + deltas level)) level 0
    else deltas
  -- keep position 0 (i.e. the maximum) updated
  let levels₂ := if levels₁ 0 < levels₁ (level - 1) then update levels₁ 0 (levels₁ (level - 1)) else levels₁
  (levels₂, deltas₁)

/-- The variables of `coherent_redistribution`. -/
structure Redistribution where
  countAdd : LevelArray
  countSub : LevelArray
  groupDeltas : LevelArray

/-- The inner loop of `coherent_redistribution`, from level `lSub` down: the level of the match, if any. -/
def findMatch (myAbsDelta lAdd : ℕ) : (lSub : ℕ) → Redistribution → Option ℕ × Redistribution
  | 0, r => (none, r)
  | lSub + 1, r =>
    if r.countSub (lSub + 1) = 0 then findMatch myAbsDelta lAdd lSub r
    else if r.countAdd 0 < r.countSub (lSub + 1) then
      let packed := packLevels myAbsDelta r.countAdd r.groupDeltas lAdd
      (none, { r with countAdd := packed.1, groupDeltas := packed.2 })
    else if r.countSub 0 < r.countAdd lAdd then
      let packed := packLevels myAbsDelta r.countSub r.groupDeltas (lSub + 1)
      findMatch myAbsDelta lAdd lSub { r with countSub := packed.1, groupDeltas := packed.2 }
    else if r.countAdd lAdd = r.countSub (lSub + 1) then
      (some (lSub + 1), { r with countAdd := update r.countAdd lAdd 0,
                                 countSub := update r.countSub (lSub + 1) 0 })
    else findMatch myAbsDelta lAdd lSub r

/-- What a match of `lAdd` and `lSub` changes for one process. -/
def takeShare (iAmAGiver : Bool) (myAbsDelta lAdd lSub : ℕ) (myCoherentDelta : ℤ) (groupDeltas : LevelArray) :
    ℤ × LevelArray :=
  if iAmAGiver then
    if lSub ≤ myAbsDelta then (myCoherentDelta - groupDeltas lSub, update groupDeltas lSub 0)
    else (myCoherentDelta, groupDeltas)
  else
    if lAdd ≤ myAbsDelta then (myCoherentDelta + groupDeltas lAdd, update groupDeltas lAdd 0)
    else (myCoherentDelta, groupDeltas)

/-- The outer loop of `coherent_redistribution`, from level `lAdd` down. -/
def matchLevels (iAmAGiver : Bool) (myAbsDelta countSize : ℕ) : (lAdd : ℕ) → ℤ → Redistribution → ℤ
  | 0, myCoherentDelta, _ => myCoherentDelta
  | lAdd + 1, myCoherentDelta, r =>
    if r.countAdd (lAdd + 1) = 0 then matchLevels iAmAGiver myAbsDelta countSize lAdd myCoherentDelta r
    else
      match findMatch myAbsDelta (lAdd + 1) countSize r with
      | (none, r1) => matchLevels iAmAGiver myAbsDelta countSize lAdd myCoherentDelta r1
      | (some lSub, r1) =>
        let share := takeShare iAmAGiver myAbsDelta (lAdd + 1) lSub myCoherentDelta r1.groupDeltas
        matchLevels iAmAGiver myAbsDelta countSize lAdd share.1 { r1 with groupDeltas := share.2 }

/-- `coherent_redistribution` -/
def coherentRedistribution (iAmAGiver : Bool) (myAbsDelta : ℕ) (countAdd countSub : LevelArray) (countSize : ℕ) : ℤ :=
  matchLevels iAmAGiver myAbsDelta countSize countSize 0
    { countAdd := countAdd, countSub := countSub,
      groupDeltas := fun i => if i ≤ countSize ∧ i ≤ myAbsDelta then 1 else 0 }

/-- What `precompute_levels` fills: the highest level and the two arrays. -/
structure Levels where
  finalCountSize : ℕ := 0
  countAdd : LevelArray := fun _ => 0
  countSub : LevelArray := fun _ => 0

/-- `for (l = 0; l <= top; l++) count[l]++` -/
def countUpTo (count : LevelArray) (top : ℕ) : LevelArray := fun l => if l ≤ top then count l + 1 else count l

/-- The body of the loop of `precompute_levels` for one delta. -/
def countDelta (countSize : ℕ) (levels : Levels) (delta : ℤ) : Levels :=
  if delta = 0 then levels
  else
    -- saturate the value, to avoid going out of bounds of the arrays
    let satAbsDelta := if delta.natAbs < countSize then delta.natAbs else countSize
    let finalCountSize := if levels.finalCountSize < satAbsDelta then satAbsDelta else levels.finalCountSize
    if 0 < delta then
      { levels with finalCountSize := finalCountSize, countAdd := countUpTo levels.countAdd satAbsDelta }
    else { levels with finalCountSize := finalCountSize, countSub := countUpTo levels.countSub satAbsDelta }

/-- `precompute_levels` -/
def precomputeLevels (deltas : List ℤ) (countSize : ℕ) : Levels := deltas.foldl (countDelta countSize) {}

def maxAbsDelta (deltas : List ℤ) : ℕ :=
  deltas.foldl (fun max delta => if max < delta.natAbs then delta.natAbs else max) 0

/-- `mngo_balancer` -/
def mngoBalancer (id : ℕ) (deltas : List ℤ) : ℤ :=
  let levels := precomputeLevels deltas (maxAbsDelta deltas)
  let self := deltas.getD id 0
  coherentRedistribution (self < 0) self.natAbs levels.countAdd levels.countSub levels.finalCountSize

end Dlb.Mngo

import Dlb.Lib.SortedEntries
import Dlb.Support.GTree
import Mathlib.Data.Nat.Fib.Basic

/-!
# What the balanced tree does

`Sound` says of a subtree that its balances are the differences of the heights, at most one either way, and that its
threads lead to its neighbours; `PathSound` says the same of a path around a subtree of some height. The loops that
restore the balance keep both (`PathSound.restore`).

* `refines_map`: any insertions and removals make of the tree what they make of a map;
* `foreach_in_order`: the traversal along the threads goes through the entries in the order of their keys.
-/

namespace Dlb

open Function List Lib

variable {κ υ σ : Type*}

namespace GTreeNode

/-- The entries, from the first node to the last one. -/
def toList : GTreeNode κ υ → List (κ × υ)
  | .thread _ => []
  | .node left key value _ right => left.toList ++ (key, value) :: right.toList

def height : GTreeNode κ υ → ℕ
  | .thread _ => 0
  | .node left _ _ _ right => max left.height right.height + 1

/-- **The invariant** of the subtree at a left or right pointer, between the nodes of these keys. -/
def Sound : Bool → Option κ → Option κ → GTreeNode κ υ → Prop
  | onRight, pred, succ, .thread p => p = if onRight then succ else pred
  | _, pred, succ, .node left key _ b right =>
    (left.Sound false pred (some key) ∧ right.Sound true (some key) succ) ∧ b = (right.height : ℤ) - left.height ∧
      -1 ≤ b ∧ b ≤ 1

variable {t left right : GTreeNode κ υ} {pred succ : Option κ} {onRight : Bool} {k key : κ} {v value : υ} {b : ℤ}

/-! ## Rotations -/

@[simp] theorem height_node : (node left key value b right).height = max left.height right.height + 1 := rfl

@[simp] theorem balance_node : (node left key value b right).balance = b := rfl

@[simp] theorem toList_orThread (k : κ) (t : GTreeNode κ υ) : (t.orThread k).toList = t.toList := by
  cases t <;> rfl

@[simp] theorem height_orThread (k : κ) (t : GTreeNode κ υ) : (t.orThread k).height = t.height := by
  cases t <;> rfl

theorem Sound.orThread_right (h : t.Sound false pred (some k)) : (t.orThread k).Sound true pred (some k) := by
  cases t with
  | thread => rfl
  | node => exact h

theorem Sound.orThread_left (h : t.Sound true (some k) succ) : (t.orThread k).Sound false (some k) succ := by
  cases t with
  | thread => rfl
  | node => exact h

theorem toList_rotateLeft (t : GTreeNode κ υ) : t.rotateLeft.toList = t.toList := by
  unfold rotateLeft
  split
  · split <;> simp [toList]
  · rfl

theorem toList_rotateRight (t : GTreeNode κ υ) : t.rotateRight.toList = t.toList := by
  unfold rotateRight
  split
  · split <;> simp [toList]
  · rfl

@[simp] theorem toList_nodeBalance (t : GTreeNode κ υ) : t.nodeBalance.toList = t.toList := by
  cases t with
  | thread => rfl
  | node left key value b right =>
    rw [nodeBalance]
    split
    · split <;> simp [toList_rotateRight, toList_rotateLeft, toList]
    · split
      · split <;> simp [toList_rotateRight, toList_rotateLeft, toList]
      · rfl

/-- What balancing does: a node that leans by two to a child that is not even gets lower by one and even, another one
keeps its height. -/
def Rebalanced (left : GTreeNode κ υ) (b : ℤ) (right t : GTreeNode κ υ) : Prop :=
  (t.balance = 0 ∧ t.height = max left.height right.height ∧ (b = 2 ∧ right.balance ≠ 0 ∨ b = -2 ∧ left.balance ≠ 0)) ∨
    (t.height = max left.height right.height + 1 ∧
      (t.balance = b ∧ -1 ≤ b ∧ b ≤ 1 ∨ t.balance ≠ 0 ∧ (b = 2 ∧ right.balance = 0 ∨ b = -2 ∧ left.balance = 0)))

theorem max_max_left (m n : ℕ) : max (max m n) m = max m n := Nat.max_eq_left (Nat.le_max_left m n)

theorem max_max_right (m n : ℕ) : max n (max m n) = max m n := Nat.max_eq_right (Nat.le_max_right m n)

theorem rebalance_left (hl : left.Sound false pred (some key)) (hr : right.Sound true (some key) succ)
    (hb : (right.height : ℤ) - left.height = -2) (value : υ) (onRight : Bool) :
    (node left key value (-2) right).nodeBalance.Sound onRight pred succ ∧
      Rebalanced left (-2) right (node left key value (-2) right).nodeBalance := by
  cases left with
  | thread => simp [height] at hb
  | node ll lk lv lb lr =>
    obtain ⟨⟨hll, hlr⟩, hlb, hlow, hhigh⟩ := hl
    rw [height_node] at hb
    by_cases hpos : lb > 0
    · cases lr with
      | thread => simp [height] at hlb; omega
      | node a x xv xb c =>
        obtain ⟨⟨ha, hc⟩, hxb, hxlow, hxhigh⟩ := hlr
        obtain rfl : lb = 1 := by omega
        rw [height_node] at hlb hb
        have hout : ll.height = max a.height c.height := by omega
        rw [hout, Nat.max_eq_right (Nat.le_succ _)] at hb
        have hright : right.height = max a.height c.height := by omega
        have hnode : (node (node ll lk lv 1 (node a x xv xb c)) key value (-2) right).nodeBalance =
            node (node ll lk lv (if xb ≤ 0 then 0 else -1) (a.orThread x)) x xv 0
              (node (c.orThread x) key value (if xb < 0 then 1 else 0) right) := by
          obtain rfl | rfl | rfl : xb = -1 ∨ xb = 0 ∨ xb = 1 := by omega
          all_goals rfl
        rw [hnode]
        refine ⟨⟨⟨⟨⟨hll, ha.orThread_right⟩, ?_⟩, ⟨⟨hc.orThread_left, hr⟩, ?_⟩⟩, ?_⟩,
          .inl ⟨rfl, ?_, .inr ⟨rfl, (by decide : (1 : ℤ) ≠ 0)⟩⟩⟩
        all_goals
          simp only [height_node, height_orThread, hout, hright, max_max_left, max_max_right, Nat.max_self]
          clear hlb hb
          omega
    · have hnode : (node (node ll lk lv lb lr) key value (-2) right).nodeBalance =
          node ll lk lv (lb + 1) (node (lr.orThread lk) key value (-2 - lb + 1) right) := by
        obtain rfl | rfl : lb = -1 ∨ lb = 0 := by omega
        all_goals rfl
      have hmax : max ll.height lr.height = ll.height := Nat.max_eq_left (by omega)
      rw [hmax] at hb
      have hmax' : max lr.height right.height = lr.height := Nat.max_eq_left (by omega)
      rw [hnode]
      refine ⟨⟨⟨hll, ⟨⟨hlr.orThread_left, hr⟩, ?_⟩⟩, ?_⟩, ?_⟩
      · rw [height_orThread]; omega
      · simp only [height_node, height_orThread, hmax']; omega
      · simp only [Rebalanced, balance_node, height_node, height_orThread, hmax, hmax']
        obtain heven | hodd : lb = 0 ∨ lb = -1 := by omega
        · exact .inr ⟨by omega, .inr ⟨by omega, .inr ⟨trivial, heven⟩⟩⟩
        · exact .inl ⟨by omega, by omega, .inr ⟨trivial, by omega⟩⟩

theorem rebalance_right (hl : left.Sound false pred (some key)) (hr : right.Sound true (some key) succ)
    (hb : (right.height : ℤ) - left.height = 2) (value : υ) (onRight : Bool) :
    (node left key value 2 right).nodeBalance.Sound onRight pred succ ∧
      Rebalanced left 2 right (node left key value 2 right).nodeBalance := by
  cases right with
  | thread => simp [height] at hb; omega
  | node rl rk rv rb rr =>
    obtain ⟨⟨hrl, hrr⟩, hrb, hlow, hhigh⟩ := hr
    rw [height_node] at hb
    by_cases hneg : rb < 0
    · cases rl with
      | thread => simp [height] at hrb; omega
      | node a x xv xb c =>
        obtain ⟨⟨ha, hc⟩, hxb, hxlow, hxhigh⟩ := hrl
        obtain rfl : rb = -1 := by omega
        rw [height_node] at hrb hb
        have hout : rr.height = max a.height c.height := by omega
        rw [hout, Nat.max_eq_left (Nat.le_succ _)] at hb
        have hleft : left.height = max a.height c.height := by omega
        have hnode : (node left key value 2 (node (node a x xv xb c) rk rv (-1) rr)).nodeBalance =
            node (node left key value (if xb ≤ 0 then 0 else -1) (a.orThread x)) x xv 0
              (node (c.orThread x) rk rv (if xb < 0 then 1 else 0) rr) := by
          obtain rfl | rfl | rfl : xb = -1 ∨ xb = 0 ∨ xb = 1 := by omega
          all_goals rfl
        rw [hnode]
        refine ⟨⟨⟨⟨⟨hl, ha.orThread_right⟩, ?_⟩, ⟨⟨hc.orThread_left, hrr⟩, ?_⟩⟩, ?_⟩,
          .inl ⟨rfl, ?_, .inl ⟨rfl, (by decide : (-1 : ℤ) ≠ 0)⟩⟩⟩
        all_goals
          simp only [height_node, height_orThread, hout, hleft, max_max_left, max_max_right, Nat.max_self]
          clear hrb hb
          omega
    · have hnode : (node left key value 2 (node rl rk rv rb rr)).nodeBalance =
          node (node left key value (1 - rb) (rl.orThread rk)) rk rv (rb - 1) rr := by
        obtain rfl | rfl : rb = 0 ∨ rb = 1 := by omega
        all_goals rfl
      have hmax : max rl.height rr.height = rr.height := Nat.max_eq_right (by omega)
      rw [hmax] at hb
      have hmax' : max left.height rl.height = rl.height := Nat.max_eq_right (by omega)
      rw [hnode]
      refine ⟨⟨⟨⟨⟨hl, hrl.orThread_right⟩, ?_⟩, hrr⟩, ?_⟩, ?_⟩
      · rw [height_orThread]; omega
      · simp only [height_node, height_orThread, hmax']; omega
      · simp only [Rebalanced, balance_node, height_node, height_orThread, hmax, hmax']
        obtain heven | hodd : rb = 0 ∨ rb = 1 := by omega
        · exact .inr ⟨by omega, .inr ⟨by omega, .inl ⟨trivial, heven⟩⟩⟩
        · exact .inl ⟨by omega, by omega, .inl ⟨trivial, by omega⟩⟩

theorem rebalance (hl : left.Sound false pred (some key)) (hr : right.Sound true (some key) succ)
    (hb : b = (right.height : ℤ) - left.height) (hlow : -2 ≤ b) (hhigh : b ≤ 2) (value : υ) (onRight : Bool) :
    (node left key value b right).nodeBalance.Sound onRight pred succ ∧
      Rebalanced left b right (node left key value b right).nodeBalance := by
  obtain rfl | hmid | rfl : b = -2 ∨ (-1 ≤ b ∧ b ≤ 1) ∨ b = 2 := by omega
  · exact rebalance_left hl hr hb.symm value onRight
  · have hkept : (node left key value b right).nodeBalance = node left key value b right := by
      rw [nodeBalance, if_neg (by omega), if_neg (by omega)]
    rw [hkept]
    exact ⟨⟨⟨hl, hr⟩, hb, hmid⟩, .inr ⟨rfl, .inl ⟨rfl, hmid⟩⟩⟩
  · exact rebalance_right hl hr hb.symm value onRight

/-! ## Paths -/

def before : List (PathNode κ υ) → List (κ × υ)
  | [] => []
  | .leftOf .. :: path => before path
  | .rightOf left key value _ :: path => before path ++ (left.toList ++ [(key, value)])

def behind : List (PathNode κ υ) → List (κ × υ)
  | [] => []
  | .leftOf key value _ right :: path => (key, value) :: (right.toList ++ behind path)
  | .rightOf .. :: path => behind path

/-- **The invariant** of a path to a subtree of this height, at a left or right pointer between the nodes of these
keys. -/
inductive PathSound : List (PathNode κ υ) → Bool → Option κ → Option κ → ℕ → Prop where
  | root (h : ℕ) : PathSound [] false none none h
  | left {path : List (PathNode κ υ)} {onRight : Bool} {pred succ : Option κ} {key : κ} {value : υ} {b : ℤ}
      {right : GTreeNode κ υ} {h : ℕ} (hright : right.Sound true (some key) succ) (hb : b = (right.height : ℤ) - h)
      (hbound : -1 ≤ b ∧ b ≤ 1) (hpath : PathSound path onRight pred succ (max h right.height + 1)) :
      PathSound (.leftOf key value b right :: path) false pred (some key) h
  | right {path : List (PathNode κ υ)} {onRight : Bool} {pred succ : Option κ} {key : κ} {value : υ} {b : ℤ}
      {left : GTreeNode κ υ} {h : ℕ} (hleft : left.Sound false pred (some key)) (hb : b = h - (left.height : ℤ))
      (hbound : -1 ≤ b ∧ b ≤ 1) (hpath : PathSound path onRight pred succ (max left.height h + 1)) :
      PathSound (.rightOf left key value b :: path) true (some key) succ h

variable {path : List (PathNode κ υ)} {h : ℕ}

theorem toList_plug (path : List (PathNode κ υ)) (t : GTreeNode κ υ) :
    (plug path t).toList = before path ++ (t.toList ++ behind path) := by
  induction path generalizing t with
  | nil => simp [plug, before, behind]
  | cons e path ih => cases e <;> simp [plug, PathNode.plug, before, behind, toList, ih]

theorem toList_restore (d : ℤ) (path : List (PathNode κ υ)) (t : GTreeNode κ υ) :
    (restore d path t).toList = before path ++ (t.toList ++ behind path) := by
  induction path generalizing t with
  | nil => simp [restore, before, behind]
  | cons e path ih =>
    unfold restore
    dsimp only
    split
    · cases e <;> simp [toList_plug, PathNode.heavier, PathNode.plug, before, behind, toList]
    · cases e <;> simp [ih, PathNode.heavier, PathNode.plug, before, behind, toList]

theorem PathSound.plug (hpath : PathSound path onRight pred succ h) (ht : t.Sound onRight pred succ)
    (hheight : t.height = h) : (GTreeNode.plug path t).Sound false none none := by
  induction path generalizing t onRight pred succ h with
  | nil => cases hpath; exact ht
  | cons e path ih =>
    subst hheight
    cases hpath with
    | left hright hb hbound hpath => exact ih hpath ⟨⟨ht, hright⟩, hb, hbound⟩ rfl
    | right hleft hb hbound hpath => exact ih hpath ⟨⟨hleft, ht⟩, hb, hbound⟩ rfl

/-- A left child got higher by `d`: the node keeps its height where the loops stop, and else it got higher by `d` too. -/
theorem Rebalanced.changed_left {d : ℤ} {t' : GTreeNode κ υ} (hre : Rebalanced t (b - d) right t') (hd : d = 1 ∨ d = -1)
    (hheight : (t.height : ℤ) = h + d) (hodd : d = 1 → h = 0 ∨ t.balance ≠ 0) (hb : b = (right.height : ℤ) - h)
    (hbound : -1 ≤ b ∧ b ≤ 1) :
    if t'.balance = 0 ↔ d = 1 then t'.height = max h right.height + 1
    else (t'.height : ℤ) = (max h right.height + 1 : ℕ) + d ∧ (d = 1 → t'.balance ≠ 0) := by
  obtain ⟨heven, hsame, hlean⟩ | ⟨hhigher, ⟨hbal, hlow, hhigh⟩ | ⟨hleans, hlean⟩⟩ := hre
  · obtain ⟨hlean, -⟩ | ⟨hlean, -⟩ := hlean
    · obtain rfl : d = -1 := by omega
      clear hd hodd
      rw [if_neg fun hstop => absurd (hstop.mp heven) (by decide)]
      exact ⟨by omega, fun h => absurd h (by decide)⟩
    · obtain rfl : d = 1 := by omega
      clear hd hodd
      rw [if_pos ⟨fun _ => rfl, fun _ => heven⟩]
      omega
  · clear hodd
    obtain rfl | rfl := hd
    · split <;> omega
    · split <;> omega
  · obtain ⟨hlean, -⟩ | ⟨hlean, heven⟩ := hlean
    · obtain rfl : d = -1 := by omega
      clear hd hodd
      rw [if_pos ⟨fun h => absurd h hleans, fun h => absurd h (by decide)⟩]
      omega
    · obtain rfl : d = 1 := by omega
      have hempty := (hodd rfl).resolve_right (not_not.mpr heven)
      clear hd hodd
      omega

theorem Rebalanced.changed_right {d : ℤ} {t' : GTreeNode κ υ} (hre : Rebalanced left (b + d) t t') (hd : d = 1 ∨ d = -1)
    (hheight : (t.height : ℤ) = h + d) (hodd : d = 1 → h = 0 ∨ t.balance ≠ 0) (hb : b = h - (left.height : ℤ))
    (hbound : -1 ≤ b ∧ b ≤ 1) :
    if t'.balance = 0 ↔ d = 1 then t'.height = max left.height h + 1
    else (t'.height : ℤ) = (max left.height h + 1 : ℕ) + d ∧ (d = 1 → t'.balance ≠ 0) := by
  obtain ⟨heven, hsame, hlean⟩ | ⟨hhigher, ⟨hbal, hlow, hhigh⟩ | ⟨hleans, hlean⟩⟩ := hre
  · obtain ⟨hlean, -⟩ | ⟨hlean, -⟩ := hlean
    · obtain rfl : d = 1 := by omega
      clear hd hodd
      rw [if_pos ⟨fun _ => rfl, fun _ => heven⟩]
      omega
    · obtain rfl : d = -1 := by omega
      clear hd hodd
      rw [if_neg fun hstop => absurd (hstop.mp heven) (by decide)]
      exact ⟨by omega, fun h => absurd h (by decide)⟩
  · clear hodd
    obtain rfl | rfl := hd
    · split <;> omega
    · split <;> omega
  · obtain ⟨hlean, heven⟩ | ⟨hlean, -⟩ := hlean
    · obtain rfl : d = 1 := by omega
      have hempty := (hodd rfl).resolve_right (not_not.mpr heven)
      clear hd hodd
      omega
    · obtain rfl : d = -1 := by omega
      clear hd hodd
      rw [if_pos ⟨fun h => absurd h hleans, fun h => absurd h (by decide)⟩]
      omega

/-- **The loops.** After an insertion the subtree is not even, unless it is a new node. -/
theorem PathSound.restore {d : ℤ} (hd : d = 1 ∨ d = -1) (hpath : PathSound path onRight pred succ h)
    (ht : t.Sound onRight pred succ) (hheight : (t.height : ℤ) = h + d) (hodd : d = 1 → h = 0 ∨ t.balance ≠ 0) :
    (GTreeNode.restore d path t).Sound false none none := by
  induction path generalizing t onRight pred succ h with
  | nil => cases hpath; exact ht
  | cons e path ih =>
    unfold GTreeNode.restore
    cases hpath with
    | @left _ onRight _ _ _ value b right _ hright hb hbound hpath =>
      obtain ⟨hsound, hre⟩ := rebalance (b := b - d) ht hright (by omega) (by omega) (by omega) value onRight
      have hchanged := hre.changed_left hd hheight hodd hb hbound
      dsimp only [PathNode.heavier, PathNode.plug]
      split
      · rename_i hstop
        rw [if_pos hstop] at hchanged
        exact hpath.plug hsound hchanged
      · rename_i hstop
        rw [if_neg hstop] at hchanged
        exact ih hpath hsound hchanged.1 fun h => .inr (hchanged.2 h)
    | @right _ onRight _ _ _ value b left _ hleft hb hbound hpath =>
      obtain ⟨hsound, hre⟩ := rebalance (b := b + d) hleft ht (by omega) (by omega) (by omega) value onRight
      have hchanged := hre.changed_right hd hheight hodd hb hbound
      dsimp only [PathNode.heavier, PathNode.plug]
      split
      · rename_i hstop
        rw [if_pos hstop] at hchanged
        exact hpath.plug hsound hchanged
      · rename_i hstop
        rw [if_neg hstop] at hchanged
        exact ih hpath hsound hchanged.1 fun h => .inr (hchanged.2 h)

/-! ## The first and the last node -/

theorem setFirst_sound (p : Option κ) (h : t.Sound false pred succ) : (t.setFirst (.thread p)).Sound false p succ ∧
    (t.setFirst (.thread p)).height = t.height := by
  induction t generalizing succ with
  | thread => exact ⟨rfl, rfl⟩
  | node left key value b right ihl =>
    obtain ⟨⟨hl, hr⟩, hb⟩ := h
    obtain ⟨hsound, hheight⟩ := ihl hl
    exact ⟨⟨⟨hsound, hr⟩, hheight ▸ hb⟩, by rw [setFirst, height_node, height_node, hheight]⟩

theorem setLast_sound (p : Option κ) (h : t.Sound true pred succ) : (t.setLast (.thread p)).Sound true pred p ∧
    (t.setLast (.thread p)).height = t.height := by
  induction t generalizing pred with
  | thread => exact ⟨rfl, rfl⟩
  | node left key value b right _ ihr =>
    obtain ⟨⟨hl, hr⟩, hb⟩ := h
    obtain ⟨hsound, hheight⟩ := ihr hr
    exact ⟨⟨⟨hl, hsound⟩, hheight ▸ hb⟩, by rw [setLast, height_node, height_node, hheight]⟩

@[simp] theorem toList_setFirst (p : Option κ) (t : GTreeNode κ υ) : (t.setFirst (.thread p)).toList = t.toList := by
  induction t with
  | thread => rfl
  | node _ _ _ _ _ ihl => simp [setFirst, toList, ihl]

@[simp] theorem toList_setLast (p : Option κ) (t : GTreeNode κ υ) : (t.setLast (.thread p)).toList = t.toList := by
  induction t with
  | thread => rfl
  | node _ _ _ _ _ _ ihr => simp [setLast, toList, ihr]

theorem firstPath_spec (hne : t.toList ≠ []) (ht : t.Sound onRight pred succ) (path : List (PathNode κ υ)) :
    ∃ spine key value right, firstPath path t = some (spine ++ path, key, value, right) ∧
      spine.length + (right.height + 1) ≤ t.height ∧
      ∀ (rest : List (PathNode κ υ)) (p : Option κ), PathSound rest onRight p succ t.height →
        before (spine ++ rest) = before rest ∧
        t.toList ++ behind rest = (key, value) :: (right.toList ++ behind (spine ++ rest)) ∧
        ∃ side succ', PathSound (spine ++ rest) side p succ' (right.height + 1) ∧ right.Sound true (some key) succ' ∧
          side = (if spine.isEmpty then onRight else false) := by
  induction t generalizing onRight succ path with
  | thread => exact absurd rfl hne
  | node left key value b right ihl =>
    obtain ⟨⟨hl, hr⟩, hb, hbound⟩ := ht
    cases left with
    | thread =>
      refine ⟨[], key, value, right, rfl, by simp [height], fun rest p hrest => ⟨rfl, by simp [toList], onRight, succ, ?_, hr, rfl⟩⟩
      simpa [height] using hrest
    | node ll lk lv lb lr =>
      obtain ⟨spine, key', value', right', hfirst, hlen, hspec⟩ := ihl (by simp [toList]) hl (.leftOf key value b right :: path)
      refine ⟨spine ++ [.leftOf key value b right], key', value', right', ?_, ?_, fun rest p hrest => ?_⟩
      · rw [firstPath, hfirst, append_assoc]; rfl
      · rw [length_append, height_node, length_singleton]; omega
      · have hleft : PathSound (.leftOf key value b right :: rest) false p (some key) (node ll lk lv lb lr).height := .left hr hb hbound hrest
        obtain ⟨hbefore, hlist, side, succ', hpath, hright, hside⟩ := hspec _ p hleft
        rw [append_assoc, singleton_append]
        refine ⟨hbefore, ?_, side, succ', hpath, hright, ?_⟩
        · rw [← hlist, toList, behind, append_assoc, cons_append]
        · rw [hside]; simp

/-! ## New and removed nodes -/

theorem leaf_sound {p : Option κ} (hpath : PathSound path onRight pred succ 0)
    (hp : (GTreeNode.thread p : GTreeNode κ υ).Sound onRight pred succ) (k : κ) (v : υ) :
    (PathNode.leaf k v p path).Sound onRight pred succ ∧ (PathNode.leaf k v p path).height = 1 ∧
      (PathNode.leaf k v p path).toList = [(k, v)] := by
  cases hpath with
  | root => exact ⟨⟨⟨rfl, rfl⟩, rfl, by decide, by decide⟩, rfl, rfl⟩
  | left => exact ⟨⟨⟨hp, rfl⟩, rfl, by decide, by decide⟩, rfl, rfl⟩
  | right => exact ⟨⟨⟨rfl, hp⟩, rfl, by decide, by decide⟩, rfl, rfl⟩

theorem unlink_spec (hpath : PathSound path onRight pred succ (node left k value b right).height)
    (h : (node left k value b right).Sound onRight pred succ) :
    (unlink path left b right).Sound false none none ∧
      (unlink path left b right).toList = before path ++ (left.toList ++ (right.toList ++ behind path)) := by
  obtain ⟨⟨hl, hr⟩, hb, hbound⟩ := h
  cases left with
  | thread p =>
    cases right with
    | thread s =>
      have hsound : (PathNode.unlinked p s path : GTreeNode κ υ).Sound onRight pred succ ∧
          (PathNode.unlinked p s path : GTreeNode κ υ).height = 0 ∧
          (PathNode.unlinked p s path : GTreeNode κ υ).toList = [] := by
        cases hpath with
        | root => exact ⟨rfl, rfl, rfl⟩
        | left => exact ⟨hl, rfl, rfl⟩
        | right => exact ⟨hr, rfl, rfl⟩
      refine ⟨hpath.restore (.inr rfl) hsound.1 (by rw [hsound.2.1]; rfl) (by omega), ?_⟩
      rw [unlink, toList_restore, hsound.2.2]; rfl
    | node rl rk rv rb rr =>
      obtain ⟨hsound, hheight⟩ := setFirst_sound p (t := .node rl rk rv rb rr) hr
      obtain rfl : p = pred := hl
      refine ⟨hpath.restore (.inr rfl) hsound (by rw [hheight]; simp [height]) (by omega), ?_⟩
      rw [unlink, toList_restore, toList_setFirst]; rfl
  | node ll lk lv lb lr =>
    cases right with
    | thread s =>
      obtain ⟨hsound, hheight⟩ := setLast_sound s (t := .node ll lk lv lb lr) hl
      obtain rfl : s = succ := hr
      refine ⟨hpath.restore (.inr rfl) hsound (by rw [hheight]; simp [height]) (by omega), ?_⟩
      rw [unlink, toList_restore, toList_setLast]; simp [toList]
    | node rl rk rv rb rr =>
      obtain ⟨spine, nextKey, nextValue, nextRight, hfirst, -, hspec⟩ :=
        firstPath_spec (t := .node rl rk rv rb rr) (by simp [toList]) hr []
      obtain ⟨hlast, hheight⟩ := setLast_sound (some nextKey) (t := .node ll lk lv lb lr) hl
      have hleft : ((node ll lk lv lb lr).setLast (.thread (some nextKey))).Sound false pred (some nextKey) := hlast
      have hrest : PathSound (.rightOf ((node ll lk lv lb lr).setLast (.thread (some nextKey))) nextKey nextValue b :: path)
          true (some nextKey) succ (node rl rk rv rb rr).height :=
        .right hleft (by rw [hheight]; exact hb) hbound (by rw [hheight]; exact hpath)
      obtain ⟨hbefore, hlist, side, succ', hspine, hright, hside⟩ := hspec _ _ hrest
      have hchild : (if spine.isEmpty then nextRight else nextRight.orThread nextKey).Sound side (some nextKey) succ' := by
        rw [hside]
        cases spine.isEmpty with
        | true => exact hright
        | false => exact hright.orThread_left
      rw [unlink, hfirst, append_nil]
      refine ⟨hspine.restore (.inr rfl) hchild (by split <;> simp) (by omega), ?_⟩
      have hentry : (node rl rk rv rb rr).toList ++ behind path = (nextKey, nextValue) :: (nextRight.toList ++
          behind (spine ++ .rightOf _ nextKey nextValue b :: path)) := hlist
      rw [toList_restore, hbefore, hentry]
      split <;> simp [before]

/-! ## Threads and heights -/

theorem first_eq (t : GTreeNode κ υ) : t.first = t.toList.head?.map Prod.fst := by
  induction t with
  | thread => rfl
  | node left key value b right ihl =>
    cases left with
    | thread => rfl
    | node => rw [first, ihl]; simp [toList]

theorem next_eq (h : right.Sound true pred succ) : right.next = (right.toList.head?.map Prod.fst).or succ := by
  cases right with
  | thread => exact h
  | node left key value b right =>
    show (node left key value b right).first = _
    rw [first_eq]; simp [toList]

theorem fib_height {t : GTreeNode κ υ} (h : t.Sound onRight pred succ) : Nat.fib (t.height + 2) ≤ t.toList.length + 1 := by
  induction t generalizing onRight pred succ with
  | thread => exact Nat.le_refl 1
  | node left key value b right ihl ihr =>
    obtain ⟨⟨hl, hr⟩, hb, hlow, hhigh⟩ := h
    have hlen : (node left key value b right).toList.length = left.toList.length + right.toList.length + 1 := by
      simp [toList]; omega
    have hleft := ihl hl
    have hright := ihr hr
    rw [hlen, height_node]
    rcases Nat.le_total left.height right.height with hle | hle
    · have hmono : Nat.fib (right.height + 1) ≤ Nat.fib (left.height + 2) := Nat.fib_mono (by omega)
      have hfib : Nat.fib (right.height + 1 + 2) = Nat.fib (right.height + 1) + Nat.fib (right.height + 2) := Nat.fib_add_two
      rw [Nat.max_eq_right hle, hfib]; omega
    · have hmono : Nat.fib (left.height + 1) ≤ Nat.fib (right.height + 2) := Nat.fib_mono (by omega)
      have hfib : Nat.fib (left.height + 1 + 2) = Nat.fib (left.height + 1) + Nat.fib (left.height + 2) := Nat.fib_add_two
      rw [Nat.max_eq_left hle, hfib]; omega

theorem treeHeight_eq {t : GTreeNode κ υ} (h : t.Sound onRight pred succ) : t.treeHeight = t.height := by
  induction t generalizing onRight pred succ with
  | thread => rfl
  | node left key value b right ihl =>
    obtain ⟨⟨hl, -⟩, hb, -⟩ := h
    rw [treeHeight, ihl hl, height_node]
    omega

/-! ## Searching -/

variable [LinearOrder κ] {entries : List (κ × υ)} {m : κ → Option υ}

/-- Where the search for a key is: the entries before the path are less, and those behind it greater. -/
structure Located (k : κ) (entries : List (κ × υ)) (path : List (PathNode κ υ)) (t : GTreeNode κ υ) : Prop where
  sound : ∃ onRight pred succ, PathSound path onRight pred succ t.height ∧ t.Sound onRight pred succ
  entries_eq : before path ++ (t.toList ++ behind path) = entries
  less : ∀ e ∈ before path, e.1 < k
  greater : ∀ e ∈ behind path, k < e.1

theorem Located.around (h : Located k entries path (.node left key value b right))
    (hsorted : entries.Pairwise fun a b => a.1 < b.1) :
    (∀ e ∈ left.toList, e.1 < key) ∧ ∀ e ∈ right.toList, key < e.1 := by
  have hinner := (pairwise_append.mp (pairwise_append.mp (h.entries_eq ▸ hsorted)).2.1).1
  obtain ⟨-, hright, hacross⟩ := pairwise_append.mp hinner
  exact ⟨fun e he => hacross e he _ mem_cons_self, (pairwise_cons.mp hright).1⟩

theorem Located.descend (hsorted : entries.Pairwise fun a b => a.1 < b.1) (h : Located k entries path t) :
    Located k entries (GTreeNode.descend k path t).1 (GTreeNode.descend k path t).2 := by
  induction t generalizing path with
  | thread => exact h
  | node left key value b right ihl ihr =>
    obtain ⟨hless, hgreater⟩ := h.around hsorted
    obtain ⟨onRight, pred, succ, hpath, ⟨hl, hr⟩, hb, hbound⟩ := h.sound
    unfold GTreeNode.descend
    split
    · exact h
    · rename_i hcmp
      have hlt : k < key := compare_lt_iff_lt.mp hcmp
      refine ihl ⟨⟨false, pred, some key, .left hr hb hbound hpath, hl⟩, ?_, h.less, fun e he => ?_⟩
      · rw [← h.entries_eq]; simp [before, behind, toList]
      · rcases mem_cons.mp he with rfl | he
        · exact hlt
        · exact (mem_append.mp he).elim (fun he => hlt.trans (hgreater e he)) (h.greater e)
    · rename_i hcmp
      have hlt : key < k := compare_gt_iff_gt.mp hcmp
      refine ihr ⟨⟨true, some key, succ, .right hl hb hbound hpath, hr⟩, ?_, fun e he => ?_, h.greater⟩
      · rw [← h.entries_eq]; simp [before, behind, toList]
      · rcases mem_append.mp he with he | he
        · exact h.less e he
        · exact (mem_append.mp he).elim (fun he => (hless e he).trans hlt) fun he => mem_singleton.mp he ▸ hlt

theorem descend_key (k : κ) (path : List (PathNode κ υ)) (t : GTreeNode κ υ) :
    ∀ {left key value b right}, (descend k path t).2 = .node left key value b right → key = k := by
  induction t generalizing path with
  | thread => intro _ _ _ _ _ h; cases h
  | node left key value b right ihl ihr =>
    intro l x v c r h
    unfold descend at h
    split at h
    · rename_i hcmp
      cases h
      exact (compare_eq_iff_eq.mp hcmp).symm
    · exact ihl _ h
    · exact ihr _ h

theorem descend_length (k : κ) (path : List (PathNode κ υ)) (t : GTreeNode κ υ) :
    (descend k path t).1.length + (descend k path t).2.height ≤ path.length + t.height := by
  induction t generalizing path with
  | thread => exact Nat.le_refl _
  | node left key value b right ihl ihr =>
    unfold descend
    rw [height_node]
    split
    · exact Nat.le_refl _
    · refine (ihl _).trans ?_
      rw [length_cons]; omega
    · refine (ihr _).trans ?_
      rw [length_cons]; omega

/-- **Where the search ends**: at a thread if the map has nothing for the key, else at the node of it. -/
inductive Found (k : κ) (root : GTreeNode κ υ) (m : κ → Option υ) : List (PathNode κ υ) × GTreeNode κ υ → Prop where
  | absent {path : List (PathNode κ υ)} {p : Option κ} (h : Located k root.toList path (.thread p))
      (hat : At k (before path) [] (behind path)) (hm : m k = none) : Found k root m (path, .thread p)
  | present {path : List (PathNode κ υ)} {left right : GTreeNode κ υ} {value : υ} {b : ℤ}
      (h : Located k root.toList path (.node left k value b right))
      (hat : At k (before path ++ left.toList) [(k, value)] (right.toList ++ behind path))
      (heq : root.toList = (before path ++ left.toList) ++ ([(k, value)] ++ (right.toList ++ behind path)))
      (hm : m k = some value) : Found k root m (path, .node left k value b right)

variable {root : GTreeNode κ υ}

theorem found (hroot : root.Sound false none none) (hentries : Entries root.toList m) (k : κ) :
    Found k root m (descend k [] root) := by
  have hstart : Located k root.toList [] root :=
    ⟨⟨false, none, none, .root _, hroot⟩, by simp [before, behind], by simp [before], by simp [behind]⟩
  have hend := hstart.descend hentries.sorted
  have hkey := @descend_key _ _ _ k [] root
  generalize descend k [] root = r at hend hkey
  obtain ⟨path, t⟩ := r
  cases t with
  | thread p =>
    have hat : At k (before path) [] (behind path) := ⟨hend.less, by simp, hend.greater⟩
    exact .absent hend hat (Entries.eq_none (hend.entries_eq.symm ▸ hentries) hat)
  | node left key value b right =>
    obtain rfl := hkey rfl
    have heq : root.toList = (before path ++ left.toList) ++ ([(key, value)] ++ (right.toList ++ behind path)) := by
      rw [← hend.entries_eq]; simp [toList]
    obtain ⟨hless, hgreater⟩ := hend.around hentries.sorted
    refine .present hend ⟨?_, ?_, ?_⟩ heq ((hentries.mem_iff key value).mp (by simp [heq]))
    · exact fun e he => (mem_append.mp he).elim (hend.less e) (hless e)
    · exact fun e he => by rw [mem_singleton.mp he]
    · exact fun e he => (mem_append.mp he).elim (hgreater e) (hend.greater e)

/-! ## The operations -/

theorem insert_spec (hroot : root.Sound false none none) (hentries : Entries root.toList m) (k : κ) (v : υ) :
    (insert k v root).2.Sound false none none ∧ Entries (insert k v root).2.toList (update m k (some v)) ∧
      (insert k v root).2.toList.length = root.toList.length + if (insert k v root).1 then 1 else 0 := by
  have hfound := found hroot hentries k
  unfold insert
  generalize descend k [] root = r at hfound
  cases hfound with
  | @absent path p h hat =>
    obtain ⟨onRight, pred, succ, hpath, hp⟩ := h.sound
    obtain ⟨hsound, hheight, hlist⟩ := leaf_sound hpath hp k v
    have htoList : (restore 1 path (PathNode.leaf k v p path)).toList = before path ++ (k, v) :: behind path := by
      rw [toList_restore, hlist, singleton_append]
    refine ⟨hpath.restore (.inl rfl) hsound (by rw [hheight]; rfl) fun _ => .inl rfl, htoList ▸ Entries.put (h.entries_eq.symm ▸ hentries) hat v, ?_⟩
    rw [htoList, ← h.entries_eq]
    simp [toList]; omega
  | @present path left right value b h hat heq =>
    obtain ⟨onRight, pred, succ, hpath, hnode⟩ := h.sound
    have htoList : (plug path (.node left k v b right)).toList =
        (before path ++ left.toList) ++ (k, v) :: (right.toList ++ behind path) := by
      rw [toList_plug]; simp [toList]
    refine ⟨hpath.plug (t := .node left k v b right) hnode rfl, htoList ▸ Entries.put (heq ▸ hentries) hat v, ?_⟩
    rw [htoList, heq]
    simp

theorem remove_spec (hroot : root.Sound false none none) (hentries : Entries root.toList m) (k : κ) :
    (remove k root = none ∧ m k = none) ∨ ∃ t, remove k root = some t ∧ (m k).isSome ∧ t.Sound false none none ∧
      Entries t.toList (update m k none) ∧ t.toList.length + 1 = root.toList.length := by
  have hfound := found hroot hentries k
  unfold remove
  generalize descend k [] root = r at hfound
  cases hfound with
  | absent h hat hm => exact .inl ⟨rfl, hm⟩
  | @present path left right value b h hat heq hm =>
    obtain ⟨onRight, pred, succ, hpath, hnode⟩ := h.sound
    obtain ⟨hsound, hlist⟩ := unlink_spec hpath hnode
    refine .inr ⟨_, rfl, by rw [hm]; rfl, hsound, ?_, ?_⟩
    · rw [hlist, ← append_assoc]
      exact Entries.cut (heq ▸ hentries) hat
    · rw [hlist, heq]
      simp; omega

theorem lookup_eq (hroot : root.Sound false none none) (hentries : Entries root.toList m) (k : κ) :
    lookup k root = m k := by
  have hfound := found hroot hentries k
  unfold lookup
  generalize descend k [] root = r at hfound
  cases hfound with
  | absent h hat hm => exact hm.symm
  | present h hat heq hm => exact hm.symm

/-! ## The traversal -/

theorem deref_eq_none {t : GTreeNode κ υ} (h : ∀ e ∈ t.toList, e.1 ≠ k) : t.deref k = none := by
  induction t with
  | thread => rfl
  | node left key value b right ihl ihr =>
    simp only [toList, mem_append, mem_cons] at h
    rw [deref, if_neg (h (key, value) (.inr (.inl rfl))).symm, ihl fun e he => h e (.inl he),
      ihr fun e he => h e (.inr (.inr he))]
    rfl

theorem visit (ht : t.Sound onRight pred succ) (hsorted : t.toList.Pairwise fun a b => a.1 < b.1)
    {l1 l2 : List (κ × υ)} (heq : t.toList = l1 ++ (k, v) :: l2) :
    ∃ right, t.deref k = some (v, right) ∧ right.next = (l2.head?.map Prod.fst).or succ := by
  induction t generalizing onRight pred succ l1 l2 with
  | thread => simp [toList] at heq
  | node left key value b right ihl ihr =>
    obtain ⟨⟨hl, hr⟩, -⟩ := ht
    obtain ⟨hleft, hrightkey, hacross⟩ := pairwise_append.mp hsorted
    obtain ⟨hgreater, hright⟩ := pairwise_cons.mp hrightkey
    rcases append_eq_append_iff.mp heq with ⟨l, rfl, hrest⟩ | ⟨l, hl1, hrest⟩
    · cases l with
      | nil =>
        cases hrest
        exact ⟨right, by rw [deref, if_pos rfl], next_eq hr⟩
      | cons e l =>
        obtain ⟨rfl, htail⟩ := cons_eq_cons.mp hrest
        obtain ⟨next, hderef, hnext⟩ := ihr hr hright htail
        have hlt : key < k := hgreater (k, v) (by rw [htail]; simp)
        have hnone : left.deref k = none := deref_eq_none fun e he => (hacross e he (k, v) (by rw [hrest]; simp)).ne
        exact ⟨next, by rw [deref, if_neg hlt.ne', hnone, hderef]; rfl, hnext⟩
    · cases l with
      | nil =>
        cases hrest
        exact ⟨right, by rw [deref, if_pos rfl], next_eq hr⟩
      | cons e l =>
        obtain ⟨rfl, rfl⟩ := cons_eq_cons.mp hrest
        obtain ⟨next, hderef, hnext⟩ := ihl hl hleft hl1
        have hlt : k < key := hacross (k, v) (by rw [hl1]; simp) (key, value) mem_cons_self
        refine ⟨next, by rw [deref, if_neg hlt.ne, hderef]; rfl, hnext.trans ?_⟩
        cases l <;> rfl

/-- What a traversal makes of the entries, up to the one at which `func` stops. -/
def foldUntil (func : κ → υ → σ → Bool × σ) : List (κ × υ) → σ → σ
  | [], data => data
  | (k, v) :: l, data => if (func k v data).1 then (func k v data).2 else foldUntil func l (func k v data).2

theorem foreachFrom_eq (hroot : root.Sound false none none) (hsorted : root.toList.Pairwise fun a b => a.1 < b.1)
    (func : κ → υ → σ → Bool × σ) (l1 : List (κ × υ)) {l2 : List (κ × υ)} (heq : root.toList = l1 ++ l2) {turns : ℕ}
    (hturns : l2.length ≤ turns) (data : σ) :
    foreachFrom func root turns (l2.head?.map Prod.fst) data = some (foldUntil func l2 data) := by
  induction l2 generalizing l1 turns data with
  | nil => cases turns <;> rfl
  | cons e l2 ih =>
    obtain ⟨k, v⟩ := e
    obtain ⟨right, hderef, hnext⟩ := visit hroot hsorted heq
    cases turns with
    | zero => cases hturns
    | succ turns =>
      rw [head?_cons, Option.map_some, foreachFrom, hderef, foldUntil]
      dsimp only
      split
      · rfl
      · rw [hnext, Option.or_none]
        exact ih (l1 ++ [(k, v)]) (by simp [heq]) (Nat.le_of_succ_le_succ hturns) _

theorem node_room (hroot : root.Sound false none none) (hentries : Entries root.toList m) (k : κ)
    (hnode : (descend k [] root).2 = .node left key value b right) :
    (descend k [] root).1.length + 1 ≤ root.height ∧
      ∀ r ∈ firstPath [] right, (descend k [] root).1.length + (r.1.length + 2) ≤ root.height := by
  have hlen := descend_length k [] root
  have hfound := found hroot hentries k
  generalize descend k [] root = r at hlen hfound hnode
  cases hfound with
  | absent => cases hnode
  | present hloc =>
    cases hnode
    obtain ⟨onRight, pred, succ, -, ⟨-, hr⟩, -⟩ := hloc.sound
    rw [length_nil, height_node] at hlen
    refine ⟨by omega, fun r hr' => ?_⟩
    have hne : right.toList ≠ [] := by
      cases right with
      | thread => cases hr'
      | node => simp [toList]
    obtain ⟨spine, key', value'', right'', hfirst, hspine, -⟩ := firstPath_spec hne hr []
    rw [hfirst, append_nil] at hr'
    cases hr'
    dsimp only at hspine hlen ⊢
    omega

end GTreeNode

namespace GTree

open GTreeNode

variable [LinearOrder κ] {t : GTree κ υ} {m : κ → Option υ}

inductive Op (κ υ : Type*) where
  | insert (k : κ) (v : υ)
  | remove (k : κ)

def next (t : GTree κ υ) : Op κ υ → GTree κ υ
  | .insert k v => t.insert k v
  | .remove k => (t.remove k).2

def Op.apply (m : κ → Option υ) : Op κ υ → κ → Option υ
  | .insert k v => update m k (some v)
  | .remove k => update m k none

structure Refines (t : GTree κ υ) (m : κ → Option υ) : Prop where
  sound : t.root.Sound false none none
  entries : Entries t.root.toList m
  nnodes : t.nnodes = t.root.toList.length % 2 ^ 32

theorem Refines.next (h : t.Refines m) (op : Op κ υ) : (t.next op).Refines (op.apply m) := by
  cases op with
  | insert k v =>
    obtain ⟨hsound, hentries, hlen⟩ := insert_spec h.sound h.entries k v
    refine ⟨hsound, hentries, ?_⟩
    have hn := h.nnodes
    show (if (GTreeNode.insert k v t.root).1 then (t.nnodes + 1) % 2 ^ 32 else t.nnodes) =
      (GTreeNode.insert k v t.root).2.toList.length % 2 ^ 32
    split <;> simp_all
  | remove k =>
    rcases remove_spec h.sound h.entries k with ⟨hnone, hm⟩ | ⟨root, hsome, -, hsound, hentries, hlen⟩
    · have hsame : update m k none = m := by rw [← hm, update_eq_self]
      simpa [GTree.next, GTree.remove, hnone, Op.apply, hsame] using h
    · refine ⟨?_, ?_, ?_⟩
      all_goals simp only [GTree.next, GTree.remove, hsome, Op.apply]
      · exact hsound
      · exact hentries
      · rw [h.nnodes]; omega

theorem refines (ops : List (Op κ υ)) : (ops.foldl next ({} : GTree κ υ)).Refines (ops.foldl Op.apply fun _ => none) := by
  suffices hrun : ∀ (t : GTree κ υ) (m : κ → Option υ), t.Refines m → (ops.foldl GTree.next t).Refines (ops.foldl Op.apply m) from
    hrun _ _ ⟨rfl, Entries.nil, rfl⟩
  induction ops with
  | nil => exact fun _ _ h => h
  | cons op ops ih => exact fun _ _ h => ih _ _ (h.next op)

theorem refines_map (ops : List (Op κ υ)) (k : κ) :
    let t := ops.foldl next ({} : GTree κ υ)
    let m := ops.foldl Op.apply fun _ => none
    t.lookup k = m k ∧ (t.remove k).1 = (m k).isSome ∧ ∃ l, Entries l m ∧ t.nnodes = l.length % 2 ^ 32 := by
  have h := refines ops
  refine ⟨lookup_eq h.sound h.entries k, ?_, _, h.entries, h.nnodes⟩
  rcases remove_spec h.sound h.entries k with ⟨hnone, hm⟩ | ⟨root, hsome, hm, -⟩
  · simp [GTree.remove, hnone, hm]
  · simp [GTree.remove, hsome, hm]

theorem foreach_in_order (ops : List (Op κ υ)) (func : κ → υ → σ → Bool × σ) (data : σ) :
    ∃ l, Entries l (ops.foldl Op.apply fun _ => none) ∧ ∀ turns ≥ l.length,
      (ops.foldl next ({} : GTree κ υ)).foreach turns func data = some (foldUntil func l data) := by
  have h := refines ops
  refine ⟨_, h.entries, fun turns hturns => ?_⟩
  rw [foreach, first_eq]
  exact foreachFrom_eq h.sound h.entries.sorted func [] rfl hturns data

/-- **The room in `path`.** In a tree of at most 433494435 nodes every search, insertion and removal fits: each index of
`path` that is written is less than `MAX_GTREE_HEIGHT`. -/
theorem path_in_bounds (ops : List (Op κ υ)) (k : κ)
    (hsize : (ops.foldl next ({} : GTree κ υ)).root.toList.length ≤ 433494435) :
    let root := (ops.foldl next ({} : GTree κ υ)).root
    root.treeHeight ≤ maxGtreeHeight ∧ (descend k [] root).1.length ≤ maxGtreeHeight ∧
      ∀ left key value b right, (descend k [] root).2 = .node left key value b right →
        (descend k [] root).1.length + 1 ≤ maxGtreeHeight ∧
        ∀ r ∈ firstPath [] right, (descend k [] root).1.length + (r.1.length + 2) ≤ maxGtreeHeight := by
  have h := refines ops
  have hheight : (ops.foldl next ({} : GTree κ υ)).root.height ≤ 40 := by
    by_contra hlt
    have hmono : Nat.fib 43 ≤ Nat.fib ((ops.foldl next ({} : GTree κ υ)).root.height + 2) := Nat.fib_mono (by omega)
    have hfib : Nat.fib 43 = 433494437 := by decide
    have hnodes := fib_height h.sound
    omega
  refine ⟨by rw [treeHeight_eq h.sound, maxGtreeHeight]; omega, ?_, fun left key value b right hnode => ?_⟩
  · exact (Nat.le_add_right _ _).trans ((descend_length k [] _).trans (by rw [length_nil, Nat.zero_add]; exact hheight))
  · obtain ⟨hnodeRoom, hspineRoom⟩ := node_room h.sound h.entries k hnode
    exact ⟨hnodeRoom.trans hheight, fun r hr => (hspineRoom r hr).trans hheight⟩

theorem path_in_bounds_three :
    let root := (([.insert 2 'b', .insert 3 'c', .insert 1 'a'] : List (Op ℕ Char)).foldl next {}).root
    root.treeHeight ≤ maxGtreeHeight ∧ (descend 3 [] root).1.length ≤ maxGtreeHeight := by
  have h := path_in_bounds [.insert 2 'b', .insert 3 'c', .insert 1 'a'] 3 (by decide)
  exact ⟨h.1, h.2.1⟩

end GTree

end Dlb

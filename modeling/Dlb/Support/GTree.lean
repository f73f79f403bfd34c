import Mathlib.Algebra.Group.Nat.Defs
import Mathlib.Data.Int.Notation
import Mathlib.Data.Nat.Notation
import Mathlib.Order.Defs.LinearOrder

/-!
# The balanced tree

`gtree.c`: a threaded AVL tree. Where a node has no child its pointer is a thread to the neighbour in the order of the
keys, so that a pointer and its flag `left_child` or `right_child` are one value here, a child or a thread. A node is
known by its key: an insertion never replaces the key of a node.

`path` is the list of the nodes above, the nearest one first, each without the child that the path goes down to.
-/

namespace Dlb

/-- `left` with `left_child`, or `right` with `right_child`. The root of an empty tree is `NULL`, as a thread to nothing. -/
inductive GTreeNode (κ υ : Type*) where
  | thread (neighbour : Option κ)
  | node (left : GTreeNode κ υ) (key : κ) (value : υ) (balance : ℤ) (right : GTreeNode κ υ)
  deriving DecidableEq

/-- An entry of `path`. -/
inductive PathNode (κ υ : Type*) where
  | leftOf (key : κ) (value : υ) (balance : ℤ) (right : GTreeNode κ υ)
  | rightOf (left : GTreeNode κ υ) (key : κ) (value : υ) (balance : ℤ)

/-- `MAX_GTREE_HEIGHT`, the length of `path`. -/
def maxGtreeHeight : ℕ := 40

variable {κ υ σ : Type*}

namespace GTreeNode

/-- `node->balance`: the height of the right subtree less that of the left one. -/
def balance : GTreeNode κ υ → ℤ
  | .thread _ => 0
  | .node _ _ _ b _ => b

/-- A child stays, and without a child the pointer that stays is a thread to the node of this key. -/
def orThread (key : κ) : GTreeNode κ υ → GTreeNode κ υ
  | .thread _ => .thread (some key)
  | t => t

def rotateLeft : GTreeNode κ υ → GTreeNode κ υ
  | .node left key value aBal (.node rightLeft rightKey rightValue bBal rightRight) =>
    let right := rightLeft.orThread rightKey
    if bBal ≤ 0 then
      .node (.node left key value (aBal - 1) right) rightKey rightValue
        (if aBal ≥ 1 then bBal - 1 else aBal + bBal - 2) rightRight
    else
      .node (.node left key value (aBal - bBal - 1) right) rightKey rightValue
        (if aBal ≤ bBal then aBal - 2 else bBal - 1) rightRight
  | t => t

def rotateRight : GTreeNode κ υ → GTreeNode κ υ
  | .node (.node leftLeft leftKey leftValue bBal leftRight) key value aBal right =>
    let left := leftRight.orThread leftKey
    if bBal ≤ 0 then
      .node leftLeft leftKey leftValue (if bBal > aBal then bBal + 1 else aBal + 2)
        (.node left key value (aBal - bBal + 1) right)
    else
      .node leftLeft leftKey leftValue (if aBal ≤ -1 then bBal + 1 else aBal + bBal + 2)
        (.node left key value (aBal + 1) right)
  | t => t

/-- `g_tree_node_balance`, which changes a node only if its balance is below -1 or above 1. -/
def nodeBalance : GTreeNode κ υ → GTreeNode κ υ
  | .thread p => .thread p
  | .node left key value b right =>
    if b < -1 then rotateRight (.node (if left.balance > 0 then left.rotateLeft else left) key value b right)
    else if b > 1 then rotateLeft (.node left key value b (if right.balance < 0 then right.rotateRight else right))
    else .node left key value b right

/-- The first thread becomes this one: `left` of the first node. -/
def setFirst : GTreeNode κ υ → GTreeNode κ υ → GTreeNode κ υ
  | .thread _, t => t
  | .node left key value b right, t => .node (left.setFirst t) key value b right

/-- The last thread becomes this one: `right` of the last node. -/
def setLast : GTreeNode κ υ → GTreeNode κ υ → GTreeNode κ υ
  | .thread _, t => t
  | .node left key value b right, t => .node left key value b (right.setLast t)

end GTreeNode

namespace PathNode

def plug (child : GTreeNode κ υ) : PathNode κ υ → GTreeNode κ υ
  | .leftOf key value b right => .node child key value b right
  | .rightOf left key value b => .node left key value b child

/-- The child is higher by `d`: the balance of its parent changes. -/
def heavier (d : ℤ) : PathNode κ υ → PathNode κ υ
  | .leftOf key value b right => .leftOf key value (b - d) right
  | .rightOf left key value b => .rightOf left key value (b + d)

/-- A new child at the end of the path, in the place of a thread: the thread on its side stays, and the other one is to
its parent. -/
def leaf (key : κ) (value : υ) (p : Option κ) : List (PathNode κ υ) → GTreeNode κ υ
  | [] => .node (.thread none) key value 0 (.thread none)
  | .leftOf parent _ _ _ :: _ => .node (.thread p) key value 0 (.thread (some parent))
  | .rightOf _ parent _ _ :: _ => .node (.thread (some parent)) key value 0 (.thread p)

/-- The thread of a parent whose child without children is removed: that of the child on this side. -/
def unlinked (left right : Option κ) : List (PathNode κ υ) → GTreeNode κ υ
  | [] => .thread none
  | .leftOf .. :: _ => .thread left
  | .rightOf .. :: _ => .thread right

end PathNode

namespace GTreeNode

/-- The tree with this subtree at the end of the path. -/
def plug : List (PathNode κ υ) → GTreeNode κ υ → GTreeNode κ υ
  | [], t => t
  | e :: path, t => plug path (e.plug t)

/-- The loops that restore the balance, from a child that is higher by `d`: 1 after an insertion, which has no more to do
above a node that is even, and -1 after a removal, which has no more to do above one that is not. -/
def restore (d : ℤ) : List (PathNode κ υ) → GTreeNode κ υ → GTreeNode κ υ
  | [], t => t
  | e :: path, t =>
    let node := ((e.heavier d).plug t).nodeBalance
    if node.balance = 0 ↔ d = 1 then plug path node else restore d path node

/-- The path down to the first node of a tree, with the key, the value and the right pointer of that. -/
def firstPath : List (PathNode κ υ) → GTreeNode κ υ → Option (List (PathNode κ υ) × κ × υ × GTreeNode κ υ)
  | _, .thread _ => none
  | path, .node left key value b right =>
    match left with
    | .thread _ => some (path, key, value, right)
    | .node .. => firstPath (.leftOf key value b right :: path) left

variable [LinearOrder κ]

/-- The loop of `g_tree_insert_internal`, `g_tree_remove_internal` and `g_tree_find_node` with the order that
`key_compare` computes: the path, and the node of the key or the thread where a new node belongs. -/
def descend (k : κ) : List (PathNode κ υ) → GTreeNode κ υ → List (PathNode κ υ) × GTreeNode κ υ
  | path, .thread p => (path, .thread p)
  | path, .node left key value b right =>
    match compare k key with
    | .eq => (path, .node left key value b right)
    | .lt => descend k (.leftOf key value b right :: path) left
    | .gt => descend k (.rightOf left key value b :: path) right

/-- `g_tree_insert_internal` without `replace`: whether there is a new node, and the root. -/
def insert (k : κ) (v : υ) (root : GTreeNode κ υ) : Bool × GTreeNode κ υ :=
  match descend k [] root with
  | (path, .node left key _ b right) => (false, plug path (.node left key v b right))
  | (path, .thread p) => (true, restore 1 path (PathNode.leaf k v p path))

/-- The removal of the node at the end of the path. -/
def unlink (path : List (PathNode κ υ)) (left : GTreeNode κ υ) (b : ℤ) (right : GTreeNode κ υ) : GTreeNode κ υ :=
  match left, right with
  | .thread p, .thread s => restore (-1) path (PathNode.unlinked p s path)
  | .thread p, .node .. => restore (-1) path (right.setFirst (.thread p))
  | .node .., .thread s => restore (-1) path (left.setLast (.thread s))
  | .node .., .node .. =>
    match firstPath [] right with
    | none => plug path right
    | some (spine, nextKey, nextValue, nextRight) =>
      -- `next` takes the place of the node, and what is right of `next` that of `next`
      let replaced := .rightOf (left.setLast (.thread (some nextKey))) nextKey nextValue b
      restore (-1) (spine ++ replaced :: path) (if spine.isEmpty then nextRight else nextRight.orThread nextKey)

/-- `g_tree_remove_internal`: the root, if the key is found. -/
def remove (k : κ) (root : GTreeNode κ υ) : Option (GTreeNode κ υ) :=
  match descend k [] root with
  | (_, .thread _) => none
  | (path, .node left _ _ b right) => some (unlink path left b right)

def lookup (k : κ) (root : GTreeNode κ υ) : Option υ :=
  match (descend k [] root).2 with
  | .thread _ => none
  | .node _ _ value _ _ => some value

def first : GTreeNode κ υ → Option κ
  | .thread _ => none
  | .node left key _ _ _ =>
    match left with
    | .thread _ => some key
    | .node .. => left.first

/-- What the pointer to a node of this key points to: the value and the right pointer. -/
def deref (p : κ) : GTreeNode κ υ → Option (υ × GTreeNode κ υ)
  | .thread _ => none
  | .node left key value _ right =>
    if p = key then some (value, right) else (left.deref p).or (right.deref p)

/-- `g_tree_node_next`, from the right pointer of a node. -/
def next : GTreeNode κ υ → Option κ
  | .thread s => s
  | right => right.first

/-- The loop of `g_tree_foreach`, over the nodes from the one at the pointer on. `func` returns whether to stop, and the
new user data. The result is `none` if the loop does not end in so many turns, or follows a dangling pointer. -/
def foreachFrom (func : κ → υ → σ → Bool × σ) (root : GTreeNode κ υ) : ℕ → Option κ → σ → Option σ
  | _, none, data => some data
  | 0, some _, _ => none
  | turns + 1, some p, data =>
    match root.deref p with
    | none => none
    | some (value, right) =>
      let r := func p value data
      if r.1 then some r.2 else foreachFrom func root turns right.next r.2

def treeHeight : GTreeNode κ υ → ℤ
  | .thread _ => 0
  | .node left _ _ b _ => left.treeHeight + (1 + max b 0)

end GTreeNode

/-- `GTree`: the root and `nnodes`, a `guint`. -/
structure GTree (κ υ : Type*) where
  root : GTreeNode κ υ := .thread none
  nnodes : ℕ := 0

namespace GTree

variable [LinearOrder κ]

def insert (t : GTree κ υ) (k : κ) (v : υ) : GTree κ υ :=
  let r := t.root.insert k v
  ⟨r.2, if r.1 then (t.nnodes + 1) % 2 ^ 32 else t.nnodes⟩

def remove (t : GTree κ υ) (k : κ) : Bool × GTree κ υ :=
  match t.root.remove k with
  | none => (false, t)
  | some root => (true, ⟨root, (t.nnodes + (2 ^ 32 - 1)) % 2 ^ 32⟩)

def lookup (t : GTree κ υ) (k : κ) : Option υ := t.root.lookup k

def foreach (t : GTree κ υ) (turns : ℕ) (func : κ → υ → σ → Bool × σ) (data : σ) : Option σ :=
  t.root.foreachFrom func turns t.root.first data

end GTree

end Dlb

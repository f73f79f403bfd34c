import Mathlib.Data.Nat.Notation
import Mathlib.Logic.Function.Basic

/-!
# Circular queues in their array

`queue_template.h` as it works on its array of `size` positions. A pointer to an item is its position, `none` is
`NULL`. `key` reads the first bytes of an item, those that `memcmp` compares. A loop over the positions gets the number
of steps it may take, and `none` is a loop that does not end in them.
-/

namespace Dlb

/-- `QUEUE_NAME`. The array is a function from positions; its capacity is the parameter `size` of the operations. -/
structure CircularQueue (α : Type) where
  items : ℕ → α
  front : ℕ
  next : ℕ

namespace CircularQueue

variable {α κ : Type} [DecidableEq κ] (size : ℕ) (key : α → κ) (q : CircularQueue α)

/-- `QUEUE_init`: the array is zeroed. -/
def init (zero : α) : CircularQueue α := ⟨fun _ => zero, 0, 0⟩

/-- `QUEUE_clear` -/
def clear : CircularQueue α := { q with front := 0, next := 0 }

/-- `QUEUE_size` -/
def length : ℕ := if q.front ≤ q.next then q.next - q.front else size - q.front + q.next

/-- `QUEUE_empty` -/
def empty : Bool := q.front = q.next

/-- `QUEUE_has_space` -/
def hasSpace : Bool := (q.next + 1) % size ≠ q.front

/-- `QUEUE_front` -/
def first : Option ℕ := if q.empty then none else some q.front

/-- `QUEUE_back` -/
def back : Option ℕ :=
  let rear := if 0 < q.next then q.next - 1 else size - 1
  if q.empty then none else some rear

/-- `QUEUE_next` -/
def advance (item : ℕ) : Option ℕ :=
  if q.empty then none
  else if q.front < q.next then
    -- queue is linear
    let nextIndex := item + 1
    if nextIndex < q.next then some (item + 1) else none
  else
    -- queue is circular
    let nextIndex := if item + 1 < size then item + 1 else 0
    if q.front < nextIndex ∨ nextIndex < q.next then some nextIndex else none

/-- `QUEUE_enqueue`; `none` is the error. -/
def enqueue (item : α) : Option (CircularQueue α) :=
  let newNext := (q.next + 1) % size
  if newNext = q.front then none
  else some { q with items := Function.update q.items q.next item, next := newNext }

/-- `QUEUE_dequeue`; `none` is the error. -/
def dequeue : Option (α × CircularQueue α) :=
  if q.empty then none
  else some (q.items q.front, { q with front := (q.front + 1) % size })

/-- The loop of `QUEUE_delete`: the items from `readIndex` on move to `writeIndex`. -/
def moveForward (next : ℕ) : (steps : ℕ) → (items : ℕ → α) → (readIndex writeIndex : ℕ) → Option ((ℕ → α) × ℕ)
  | 0, _, _, _ => none
  | steps + 1, items, readIndex, writeIndex =>
    if readIndex = next then some (items, writeIndex)
    else moveForward next steps (Function.update items writeIndex (items readIndex)) ((readIndex + 1) % size)
      ((writeIndex + 1) % size)

/-- `QUEUE_delete` -/
def delete (item : ℕ) : Option (CircularQueue α) :=
  if q.empty then some q
  else if item = q.front then
    -- item is first element, just advance front
    some { q with front := (q.front + 1) % size }
  else if (q.front < q.next ∧ (item < q.front ∨ q.next ≤ item)) ∨
      (q.next ≤ q.front ∧ q.next ≤ item ∧ item < q.front) then
    -- out of bounds
    some q
  else
    (moveForward size q.next size q.items ((item + 1) % size) item).map fun moved =>
      { q with items := moved.1, next := moved.2 }

/-- The first loop of `QUEUE_remove`: advance front for every first item that matches key. -/
def skipFirst (k : κ) : (steps : ℕ) → CircularQueue α → Option (CircularQueue α)
  | 0, _ => none
  | steps + 1, q =>
    if ¬q.empty ∧ key (q.items q.front) = k then skipFirst k steps { q with front := (q.front + 1) % size }
    else some q

/-- The second loop of `QUEUE_remove`. -/
def squeeze (k : κ) (next : ℕ) : (steps : ℕ) → (items : ℕ → α) → (readIndex writeIndex : ℕ) → Option ((ℕ → α) × ℕ)
  | 0, _, _, _ => none
  | steps + 1, items, readIndex, writeIndex =>
    if readIndex = next then some (items, writeIndex)
    else
      -- move items forward in the queue
      let items' := if readIndex ≠ writeIndex then Function.update items writeIndex (items readIndex) else items
      -- the write index only advances when the element is not to be removed
      let writeIndex' := if key (items' readIndex) ≠ k then (writeIndex + 1) % size else writeIndex
      squeeze k next steps items' ((readIndex + 1) % size) writeIndex'

/-- `QUEUE_remove` -/
def remove (k : κ) : Option (CircularQueue α) := do
  let q1 ← skipFirst size key k size q
  if q1.empty then return q1
  -- front does not match, iterate from 2nd item
  let writeIndex := (q1.front + 1) % size
  let squeezed ← squeeze size key k q1.next size q1.items writeIndex writeIndex
  return { q1 with items := squeezed.1, next := squeezed.2 }

/-- The loop of `QUEUE_search`, and that of `QUEUE_replace`: the position of the first item from `index` on with key
`k`. -/
def searchFrom (k : κ) : (steps : ℕ) → (index : ℕ) → Option (Option ℕ)
  | 0, _ => none
  | steps + 1, index =>
    if index = q.next then some none
    else if key (q.items index) = k then some (some index)
    else searchFrom k steps ((index + 1) % size)

/-- `QUEUE_replace` -/
def replace (item : α) : Option (CircularQueue α) :=
  (searchFrom size key q (key item) size q.front).map fun
    | some index => { q with items := Function.update q.items index item }
    | none => q

/-- `QUEUE_search` -/
def search (k : κ) : Option (Option ℕ) := searchFrom size key q k size q.front

/-- Iterating with `QUEUE_front` and `QUEUE_next`: the positions in the order of the visits. -/
def visits : (steps : ℕ) → (item : Option ℕ) → Option (List ℕ)
  | _, none => some []
  | 0, some _ => none
  | steps + 1, some item => (visits steps (q.advance size item)).map (item :: ·)

inductive Handle (κ : Type) where
  | first
  | advance (h : Handle κ)
  | search (k : κ)

def Handle.item : Handle κ → Option (Option ℕ)
  | .first => some q.first
  | .advance h => h.item.map fun item => item.bind (q.advance size)
  | .search k => q.search size key k

inductive Op (α κ : Type) where
  | enqueue (item : α)
  | dequeue
  | delete (h : Handle κ)
  | remove (k : κ)
  | replace (item : α)
  | search (k : κ)
  | clear

/-- The queue after an operation; an operation that fails leaves it as it is, and only an item is deleted. -/
def Op.exec (q : CircularQueue α) : Op α κ → Option (CircularQueue α)
  | .enqueue item => some ((q.enqueue size item).getD q)
  | .dequeue => some (((q.dequeue size).map Prod.snd).getD q)
  | .delete h => do
    match ← h.item size key q with
    | none => return q
    | some item => q.delete size item
  | .remove k => q.remove size key k
  | .replace item => q.replace size key item
  | .search k => (q.search size key k).map fun _ => q
  | .clear => some q.clear

end CircularQueue

end Dlb

import Mathlib.Data.List.Basic

/-!
# Fixed-size circular queues

`queue_template.h`: a queue lives in an array of `size` positions, of which one stays empty. It is kept as the list of
its elements from the front to the back and the position of the first one; a pointer to an element is a position of
the array, and stays one when elements are deleted under it.
-/

namespace Dlb

/-- `QUEUE_NAME`: the elements from the front to the back, and the position of the first one. -/
structure Queue (α : Type) where
  items : List α := []
  front : ℕ := 0

namespace Queue

variable {α : Type} (size : ℕ) (q : Queue α)

/-- `queue->next`: the position after the last element. -/
def next : ℕ := (q.front + q.items.length) % size

def get? (pos : ℕ) : Option α := q.items[(pos + size - q.front) % size]?

/-- `QUEUE_has_space`: the capacity is one less than the size. -/
def hasSpace : Bool := q.items.length + 1 < size

/-- `QUEUE_enqueue`; `none` is a full queue. -/
def enqueue (item : α) : Option (Queue α) :=
  if q.hasSpace size then some { q with items := q.items ++ [item] } else none

/-- `QUEUE_next`: the position after `pos`, unless the queue ends there. -/
def advance (pos : ℕ) : Option ℕ :=
  if q.items = [] then none
  else if q.front < q.next size then
    -- queue is linear
    if pos + 1 < q.next size then some (pos + 1) else none
  else
    -- queue is circular
    let pos' := if pos + 1 < size then pos + 1 else 0
    if q.front < pos' ∨ pos' < q.next size then some pos' else none

/-- `QUEUE_delete`: the first element goes by advancing `front`, another one by moving up those behind it. -/
def delete (pos : ℕ) : Queue α :=
  if pos = q.front then { items := q.items.tail, front := (q.front + 1) % size }
  else { q with items := q.items.eraseIdx ((pos + size - q.front) % size) }

/-- The element at `pos` is overwritten. -/
def put (pos : ℕ) (item : α) : Queue α := { q with items := q.items.set ((pos + size - q.front) % size) item }

/-- `QUEUE_remove`: `front` advances over the first elements that match, the others that match are squeezed out. -/
def remove (isKey : α → Bool) : Queue α where
  items := q.items.filter (!isKey ·)
  front := (q.front + (q.items.takeWhile isKey).length) % size

/-- Search from position `pos` on for an element that `test` accepts and whose key is not `0`. Every accepted element
is replaced by what `use` leaves of it (`none`: it is deleted), also one with key `0`, after which the search goes on
behind its position. -/
def take (test : α → Bool) (key : α → ℕ) (use : α → Option α) : ℕ → Option ℕ → Queue α → Queue α × ℕ
  | 0, _, q => (q, 0)
  | _ + 1, none, q => (q, 0)
  | fuel + 1, some pos, q =>
    match q.get? size pos with
    | none => (q, 0)
    | some item =>
      if test item then
        let q' := match use item with
          | none => q.delete size pos
          | some item' => q.put size pos item'
        if key item ≠ 0 then (q', key item) else take test key use fuel (q'.advance size pos) q'
      else take test key use fuel (q.advance size pos) q

/-- The position of `QUEUE_front`. -/
def first : Option ℕ := if q.items = [] then none else some q.front

end Queue

end Dlb

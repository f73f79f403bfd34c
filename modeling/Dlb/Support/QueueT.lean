import Dlb.Support.Types
import Mathlib.Logic.Function.Basic

/-!
# The generic queue

`queue_t` of `queues.c`: elements of one size in a ring of `capacity` slots. `head` is the slot where the next element
goes at the head, `tail` the slot of the last element, and both are equal when the queue is empty and when it is full.
At capacity, the allocator decides: refuse the element, move to a storage twice as large, or go on.

An element of `element_size` bytes is a value of `α`, a pointer into the storage is the number of a slot, and
`malloc n` is what a new block for `n` elements holds.
-/

namespace Dlb

/-- `queue_allocator_t`. -/
inductive QueueAllocator where
  | fixed | overwrite | realloc
deriving DecidableEq, Repr

structure QueueT (α : Type*) where
  queue : ℕ → α
  allocator : QueueAllocator
  elements : ℕ
  capacity : ℕ
  head : ℕ
  tail : ℕ

variable {α β : Type*}

/-- `memcpy` of `n` elements, from slot `j` of `src` on to slot `i` of `dest` on. -/
def memcpy (dest : ℕ → α) (i : ℕ) (src : ℕ → α) (j n : ℕ) : ℕ → α :=
  fun k => if i ≤ k ∧ k < i + n then src (j + (k - i)) else dest k

namespace QueueT

variable (malloc : ℕ → ℕ → α) (q : QueueT α)

/-- `queue__init`; `ptr` is a container of the user. `none` is a null pointer. -/
def init (capacity : ℕ) (ptr : Option (ℕ → α)) (allocator : QueueAllocator) : Option (QueueT α) :=
  -- the user's pointer cannot be moved
  if allocator = .realloc ∧ ptr.isSome then none
  else some
    { queue := ptr.getD (malloc capacity), allocator := allocator, elements := 0, capacity := capacity,
      head := 0, tail := 0 }

def getSize : ℕ := q.elements

def getCapacity : ℕ := q.capacity

def isEmpty : Bool := q.elements = 0

def isAtCapacity : Bool := q.elements = q.capacity

def moveForwards (idx : ℕ) : ℕ :=
  let idx := addU32 idx 1
  if q.capacity ≤ idx then 0 else idx

def moveBackwards (idx : ℕ) : ℕ :=
  let idx := if idx = 0 then q.capacity else idx
  subU32 idx 1

/-- The element that a pointer points to is written. -/
def write (ptr : ℕ) (x : α) : QueueT α := { q with queue := Function.update q.queue ptr x }

/-- `queue__take_head`; `none` is `DLB_NOUPDT`. -/
def takeHead : QueueT α × Option α :=
  if q.elements = 0 then (q, none)
  else
    let head := q.moveBackwards q.head
    ({ q with elements := q.elements - 1, head := head }, some (q.queue head))

def takeTail : QueueT α × Option α :=
  if q.elements = 0 then (q, none)
  else ({ q with elements := q.elements - 1, tail := q.moveForwards q.tail }, some (q.queue q.tail))

/-- `queue__peek_head`: a pointer to the first element. -/
def peekHead : Option ℕ := if q.elements = 0 then none else some (q.moveBackwards q.head)

/-- `queue__peek_tail`: a pointer to the last element. -/
def peekTail : Option ℕ := if q.elements = 0 then none else some q.tail

/-- What `queue__realloc` copies into the new storage. -/
def reallocCopy (newQueue : ℕ → α) : ℕ → α :=
  if q.tail = 0 ∧ q.head = 0 ∧ q.elements = q.capacity then memcpy newQueue 0 q.queue 0 q.elements
  else
    let first := subU32 (if q.head ≤ q.tail then q.capacity else q.head) q.tail
    let newQueue := memcpy newQueue 0 q.queue q.tail first
    memcpy newQueue (subU32 q.capacity q.tail) q.queue 0 q.head

def realloc : QueueT α :=
  let newCapacity := if q.capacity = 0 then 1 else q.capacity * 2 % 2 ^ 32
  { q with queue := q.reallocCopy (malloc newCapacity), tail := 0, head := q.elements, capacity := newCapacity }

/-- `queue__check_capacity`; `none` when there is no space. -/
def checkCapacity : Option (QueueT α) :=
  if q.isAtCapacity then
    match q.allocator with
    | .fixed => none
    | .realloc => some (q.realloc malloc)
    | .overwrite => some q
  else some q

/-- `queue__emplace_head`: a pointer to the new element, `none` for a null pointer. -/
def emplaceHead : QueueT α × Option ℕ :=
  match q.checkCapacity malloc with
  | none => (q, none)
  | some q => ({ q with head := q.moveForwards q.head, elements := addU32 q.elements 1 }, some q.head)

def pushHead (new : α) : QueueT α × Option ℕ :=
  match q.emplaceHead malloc with
  | (q, none) => (q, none)
  | (q, some head) => (q.write head new, some head)

def emplaceTail : QueueT α × Option ℕ :=
  match q.checkCapacity malloc with
  | none => (q, none)
  | some q =>
    let tail := q.moveBackwards q.tail
    ({ q with tail := tail, elements := addU32 q.elements 1 }, some tail)

def pushTail (new : α) : QueueT α × Option ℕ :=
  match q.checkCapacity malloc with
  | none => (q, none)
  | some q =>
    let tail := q.moveBackwards q.tail
    ({ q with tail := tail, elements := addU32 q.elements 1 }.write tail new, some tail)

/-! ## The iterator -/

/-- `queue_iter_head2tail_t`; the queue that it points to is an argument of `next`. -/
structure IterHead2tail where
  done : Bool
  curr : ℕ
  tail : ℕ
deriving DecidableEq, Repr

def intoHead2tailIter : IterHead2tail := { done := false, curr := q.head, tail := q.tail }

/-- `queue_iter_head2tail__next`; `none` is a null pointer. -/
def iterNext (it : IterHead2tail) : Option ℕ × IterHead2tail :=
  if it.done ∨ q.elements = 0 then (none, it)
  else
    let curr := subU32 (if it.curr ≤ 0 then q.getCapacity else it.curr) 1
    (some curr, { it with curr := curr, done := if curr = it.tail then true else it.done })

/-- `queue_iter__foreach`, for at most `fuel` calls of `next`; `fn` folds the elements. -/
def foreach (fn : β → α → β) : ℕ → IterHead2tail → β → Option β
  | 0, _, _ => none
  | fuel + 1, it, args =>
    match q.iterNext it with
    | (none, _) => some args
    | (some i, it) => foreach fn fuel it (fn args (q.queue i))

/-- `queue_iter__get_nth`, for at most `fuel` calls of `next`. -/
def getNth (n : ℕ) : ℕ → IterHead2tail → ℕ → Option (Option ℕ)
  | 0, _, _ => none
  | fuel + 1, it, count =>
    match q.iterNext it with
    | (none, _) => some none
    | (some i, it) => if count = n then some (some i) else getNth n fuel it (addU32 count 1)

/-! ## Calls of a user -/

/-- The calls on a queue. After an `emplace` the caller fills the element through the pointer. -/
inductive Op (α : Type*) where
  | pushHead (new : α)
  | pushTail (new : α)
  | emplaceHead (new : α)
  | emplaceTail (new : α)
  | takeHead
  | takeTail
  | peekHead
  | peekTail

/-- What a call tells its caller: whether there is a new element, or the element taken or peeked at. -/
inductive Result (α : Type*) where
  | stored (ok : Bool)
  | value (x : Option α)
deriving DecidableEq, Repr

def exec : Op α → QueueT α × Result α
  | .pushHead new =>
    let (q, ptr) := q.pushHead malloc new
    (q, .stored ptr.isSome)
  | .pushTail new =>
    let (q, ptr) := q.pushTail malloc new
    (q, .stored ptr.isSome)
  | .emplaceHead new =>
    let (q, ptr) := q.emplaceHead malloc
    (ptr.elim q (q.write · new), .stored ptr.isSome)
  | .emplaceTail new =>
    let (q, ptr) := q.emplaceTail malloc
    (ptr.elim q (q.write · new), .stored ptr.isSome)
  | .takeHead =>
    let (q, x) := q.takeHead
    (q, .value x)
  | .takeTail =>
    let (q, x) := q.takeTail
    (q, .value x)
  | .peekHead => (q, .value (q.peekHead.map q.queue))
  | .peekTail => (q, .value (q.peekTail.map q.queue))

def run (q : QueueT α) : List (Op α) → QueueT α × List (Result α)
  | [] => (q, [])
  | op :: ops =>
    let (q, r) := q.exec malloc op
    let (q, rs) := run q ops
    (q, r :: rs)

end QueueT

end Dlb

import Dlb.Lib.Ring
import Dlb.Support.QueueT

/-!
# The generic queue is a deque

A deque is a list, the head first (`Deque.exec`). It has no bound, or refuses what does not fit, or is a window that
drops its oldest element. A queue holds the deque of its ring (`items`); every call does to it what it does to the
deque (`exec_holds`), as long as a queue that overwrites is not pushed to at capacity. The iterator yields the elements
from the head to the tail (`yields_items`).
-/

namespace Dlb.QueueT

open Lib.Ring

variable {α β : Type*} (malloc : ℕ → ℕ → α) {q q' : QueueT α} {x : α} {d : List α} {it it' : IterHead2tail} {n : ℕ}

/-! ## Deques -/

/-- What a deque does with one more element than `n`. -/
inductive Limit where
  | unbounded
  | refuse (n : ℕ)
  | window (n : ℕ)
deriving DecidableEq, Repr

def limitOf : QueueAllocator → ℕ → Limit
  | .fixed, capacity => .refuse capacity
  | .realloc, _ => .unbounded
  | .overwrite, capacity => .window capacity

namespace Deque

def pushHead (limit : Limit) (d : List α) (new : α) : List α × Bool :=
  match limit with
  | .unbounded => (new :: d, true)
  | .refuse n => if d.length = n then (d, false) else (new :: d, true)
  | .window n => if d.length = n then (new :: d.dropLast, true) else (new :: d, true)

def pushTail (limit : Limit) (d : List α) (new : α) : List α × Bool :=
  match limit with
  | .unbounded => (d ++ [new], true)
  | .refuse n => if d.length = n then (d, false) else (d ++ [new], true)
  | .window n => if d.length = n then (d.tail ++ [new], true) else (d ++ [new], true)

def exec (limit : Limit) (d : List α) : Op α → List α × Result α
  | .pushHead new | .emplaceHead new => ((pushHead limit d new).1, .stored (pushHead limit d new).2)
  | .pushTail new | .emplaceTail new => ((pushTail limit d new).1, .stored (pushTail limit d new).2)
  | .takeHead => (d.tail, .value d.head?)
  | .takeTail => (d.dropLast, .value d.getLast?)
  | .peekHead => (d, .value d.head?)
  | .peekTail => (d, .value d.getLast?)

def run (limit : Limit) (d : List α) : List (Op α) → List α × List (Result α)
  | [] => (d, [])
  | op :: ops =>
    let (d, r) := exec limit d op
    let (d, rs) := run limit d ops
    (d, r :: rs)

end Deque

def Op.isPush : Op α → Bool
  | .pushHead _ | .pushTail _ | .emplaceHead _ | .emplaceTail _ => true
  | _ => false

/-! ## The ring of a queue -/

def items (q : QueueT α) : List α := contents q.queue q.capacity q.tail q.elements

@[simp] theorem items_length : q.items.length = q.elements := contents_length

structure Ok (q : QueueT α) : Prop where
  size : q.elements ≤ q.capacity
  bound : q.capacity < 2 ^ 32
  tail : 0 < q.capacity → q.tail < q.capacity
  head : 0 < q.capacity → q.head = slot q.capacity q.tail q.elements
  flat : q.capacity = 0 → q.head = 0 ∧ q.tail = 0

theorem Ok.moveForwards (h : q.Ok) {i : ℕ} (hi : i < q.capacity) : q.moveForwards i = next q.capacity i := by
  have hbound := h.bound
  rw [QueueT.moveForwards, addU32_of_lt (by omega), next]
  split_ifs <;> omega

theorem Ok.moveBackwards (h : q.Ok) {i : ℕ} (hi : i < q.capacity) : q.moveBackwards i = prev q.capacity i := by
  have hbound := h.bound
  unfold QueueT.moveBackwards prev
  split_ifs
  · exact subU32_of_le (by omega) (by omega)
  · exact subU32_of_le (by omega) (by omega)

theorem Ok.head_lt (h : q.Ok) (hc : 0 < q.capacity) : q.head < q.capacity := by
  rw [h.head hc]
  exact slot_lt (h.tail hc) h.size

/-! ## Space -/

theorem memcpy_mem {dest src : ℕ → α} {i j k : ℕ} (h : k < n) : memcpy dest i src j n (i + k) = src (j + k) := by
  simp [memcpy, h]

theorem memcpy_below {dest src : ℕ → α} {i j k : ℕ} (h : k < i) : memcpy dest i src j n k = dest k := by
  have hk : ¬(i ≤ k ∧ k < i + n) := by omega
  simp [memcpy, hk]

theorem Ok.reallocCopy (h : q.Ok) (hfull : q.elements = q.capacity) (hc : 0 < q.capacity) (new : ℕ → α) {c : ℕ}
    (hle : q.capacity ≤ c) : contents (q.reallocCopy new) c 0 q.elements = q.items := by
  have ht := h.tail hc
  have hbound := h.bound
  have hhead : q.head = q.tail := by rw [h.head hc, hfull, slot_full]
  rw [items, hfull]
  unfold QueueT.reallocCopy
  split
  · rename_i hzero
    refine contents_unroll ht hle (fun k hk => ?_) (fun k hk => ?_)
    · have hmem : memcpy new 0 q.queue 0 q.elements (0 + k) = q.queue (0 + k) := memcpy_mem (by omega)
      rw [hzero.1, ← hmem, Nat.zero_add]
    · omega
  · have hfirst : subU32 (if q.head ≤ q.tail then q.capacity else q.head) q.tail = q.capacity - q.tail := by
      rw [if_pos (by omega)]
      exact subU32_of_le (by omega) (by omega)
    have hoff : subU32 q.capacity q.tail = q.capacity - q.tail := subU32_of_le (by omega) (by omega)
    rw [hfirst, hoff, hhead]
    refine contents_unroll ht hle (fun k hk => ?_) (fun k hk => ?_)
    · rw [memcpy_below hk]
      have hmem : memcpy new 0 q.queue q.tail (q.capacity - q.tail) (0 + k) = q.queue (q.tail + k) := memcpy_mem hk
      rwa [Nat.zero_add] at hmem
    · rw [memcpy_mem hk, Nat.zero_add]

theorem Ok.realloc (h : q.Ok) (hfull : q.elements = q.capacity) (hroom : q.capacity < 2 ^ 31) :
    (q.realloc malloc).Ok ∧ (q.realloc malloc).items = q.items ∧
      (q.realloc malloc).elements < (q.realloc malloc).capacity := by
  have hdouble : q.capacity * 2 % 2 ^ 32 = q.capacity * 2 := Nat.mod_eq_of_lt (by omega)
  by_cases hc : q.capacity = 0
  · have hnone : q.elements = 0 := by omega
    refine ⟨⟨?_, ?_, ?_, ?_, ?_⟩, ?_, ?_⟩ <;> simp [QueueT.realloc, items, contents, hc, hnone, slot]
  · have hcopy := h.reallocCopy hfull (by omega) (malloc (q.capacity * 2)) (c := q.capacity * 2) (by omega)
    refine ⟨⟨?_, ?_, ?_, ?_, ?_⟩, ?_, ?_⟩ <;> simp only [QueueT.realloc, if_neg hc, hdouble]
    · omega
    · omega
    · omega
    · intro _
      rw [slot, if_pos (by omega), Nat.zero_add]
    · omega
    · exact hcopy
    · omega

theorem Ok.checkCapacity (h : q.Ok) (hover : q.allocator = .overwrite → q.elements ≠ q.capacity)
    (hroom : q.allocator = .realloc → q.elements + 1 < 2 ^ 31) :
    (q.checkCapacity malloc = none ∧ q.allocator = .fixed ∧ q.elements = q.capacity) ∨
    ∃ q', q.checkCapacity malloc = some q' ∧ q'.Ok ∧ q'.items = q.items ∧ q'.elements < q'.capacity ∧
      limitOf q'.allocator q'.capacity = limitOf q.allocator q.capacity ∧
      (q.allocator ≠ .realloc → q.elements ≠ q.capacity) := by
  have hsize := h.size
  by_cases hfull : q.elements = q.capacity
  · have hcap : q.isAtCapacity = true := by simp [isAtCapacity, hfull]
    cases hkind : q.allocator with
    | fixed => exact .inl ⟨by simp [QueueT.checkCapacity, hcap, hkind], rfl, hfull⟩
    | overwrite => exact absurd hfull (hover hkind)
    | realloc =>
      have hlt := hroom hkind
      obtain ⟨hok, hitems, hspace⟩ := h.realloc malloc hfull (by omega)
      refine .inr ⟨q.realloc malloc, by simp [QueueT.checkCapacity, hcap, hkind], hok, hitems, hspace, ?_, ?_⟩
      · simp [QueueT.realloc, hkind, limitOf]
      · simp
  · have hcap : q.isAtCapacity = false := by simp [isAtCapacity, hfull]
    exact .inr ⟨q, by simp [QueueT.checkCapacity, hcap], h, rfl, by omega, rfl, fun _ => hfull⟩

/-! ## One element more, one element less -/

/-- The queue with one element more at the head, the storage untouched. -/
def grownHead (q : QueueT α) : QueueT α :=
  { q with head := q.moveForwards q.head, elements := addU32 q.elements 1 }

/-- The queue with one element more at the tail, the storage untouched. -/
def grownTail (q : QueueT α) : QueueT α :=
  { q with tail := q.moveBackwards q.tail, elements := addU32 q.elements 1 }

theorem emplaceHead_eq (q : QueueT α) :
    q.emplaceHead malloc = (q.checkCapacity malloc).elim (q, none) fun q => (q.grownHead, some q.head) := by
  unfold emplaceHead
  cases q.checkCapacity malloc <;> rfl

theorem emplaceTail_eq (q : QueueT α) : q.emplaceTail malloc =
    (q.checkCapacity malloc).elim (q, none) fun q => (q.grownTail, some (q.moveBackwards q.tail)) := by
  unfold emplaceTail
  cases q.checkCapacity malloc <;> rfl

theorem pushHead_eq (q : QueueT α) : q.pushHead malloc x =
    (q.checkCapacity malloc).elim (q, none) fun q => (q.grownHead.write q.head x, some q.head) := by
  rw [pushHead, emplaceHead_eq]
  cases q.checkCapacity malloc <;> rfl

theorem pushTail_eq (q : QueueT α) : q.pushTail malloc x = (q.checkCapacity malloc).elim (q, none) fun q =>
    (q.grownTail.write (q.moveBackwards q.tail) x, some (q.moveBackwards q.tail)) := by
  unfold pushTail
  cases q.checkCapacity malloc <;> rfl

theorem Ok.write (h : q.Ok) (i : ℕ) (x : α) : (q.write i x).Ok := ⟨h.size, h.bound, h.tail, h.head, h.flat⟩

theorem Ok.grownHead (h : q.Ok) (hspace : q.elements < q.capacity) :
    (q.grownHead.write q.head x).Ok ∧ (q.grownHead.write q.head x).items = x :: q.items := by
  have hbound := h.bound
  have hc : 0 < q.capacity := by omega
  have ht := h.tail hc
  have helements : addU32 q.elements 1 = q.elements + 1 := addU32_of_lt (by omega)
  have hhead : q.moveForwards q.head = slot q.capacity q.tail (q.elements + 1) := by
    rw [h.moveForwards (h.head_lt hc), h.head hc, next_slot ht hspace]
  have hok : q.grownHead.Ok := by
    refine ⟨?_, hbound, fun _ => ht, fun _ => ?_, fun h0 => absurd h0 (Nat.pos_iff_ne_zero.mp hc)⟩
    · simp only [QueueT.grownHead, helements]
      omega
    · simpa only [QueueT.grownHead, helements] using hhead
  refine ⟨hok.write _ _, ?_⟩
  simp only [items, QueueT.write, QueueT.grownHead, helements]
  rw [h.head hc, contents_push x hspace]

theorem Ok.grownTail (h : q.Ok) (hspace : q.elements < q.capacity) :
    (q.grownTail.write (q.moveBackwards q.tail) x).Ok ∧
      (q.grownTail.write (q.moveBackwards q.tail) x).items = q.items ++ [x] := by
  have hbound := h.bound
  have hc : 0 < q.capacity := by omega
  have ht := h.tail hc
  have helements : addU32 q.elements 1 = q.elements + 1 := addU32_of_lt (by omega)
  have htail := h.moveBackwards ht
  have hok : q.grownTail.Ok := by
    refine ⟨?_, hbound, fun _ => ?_, fun _ => ?_, fun h0 => absurd h0 (Nat.pos_iff_ne_zero.mp hc)⟩
    · simp only [QueueT.grownTail, helements]
      omega
    · simpa only [QueueT.grownTail, htail] using prev_lt ht
    · simp only [QueueT.grownTail, helements, htail]
      rw [slot_prev ht hspace, h.head hc]
  refine ⟨hok.write _ _, ?_⟩
  simp only [items, QueueT.write, QueueT.grownTail, helements, htail]
  exact contents_unshift x ht hspace

theorem Ok.head_element (h : q.Ok) (hsome : q.elements ≠ 0) :
    q.moveBackwards q.head = slot q.capacity q.tail (q.elements - 1) ∧
      q.items.head? = some (q.queue (q.moveBackwards q.head)) := by
  have hsize := h.size
  have hc : 0 < q.capacity := by omega
  obtain ⟨n, hn⟩ : ∃ n, q.elements = n + 1 := ⟨q.elements - 1, by omega⟩
  have hhead : q.moveBackwards q.head = slot q.capacity q.tail n := by
    rw [h.moveBackwards (h.head_lt hc), h.head hc, hn, prev_slot (h.tail hc)]
  refine ⟨by rw [hhead, hn, Nat.add_sub_cancel], ?_⟩
  simp [items, hn, contents, hhead]

theorem Ok.tail_element (h : q.Ok) (hsome : q.elements ≠ 0) :
    q.items = contents q.queue q.capacity (q.moveForwards q.tail) (q.elements - 1) ++ [q.queue q.tail] := by
  have hsize := h.size
  have hc : 0 < q.capacity := by omega
  obtain ⟨n, hn⟩ : ∃ n, q.elements = n + 1 := ⟨q.elements - 1, by omega⟩
  rw [h.moveForwards (h.tail hc), items, hn, Nat.add_sub_cancel]
  exact contents_succ (h.tail hc) (by omega)

theorem items_empty (h : q.elements = 0) : q.items = [] := by simp [items, h, contents]

theorem Ok.takeHead (h : q.Ok) :
    q.takeHead.1.Ok ∧ q.takeHead.1.items = q.items.tail ∧ q.takeHead.2 = q.items.head? := by
  unfold QueueT.takeHead
  split
  · rename_i hnone
    simp [h, items_empty hnone]
  · rename_i hsome
    obtain ⟨hslot, hfirst⟩ := h.head_element hsome
    have hsize := h.size
    refine ⟨⟨?_, h.bound, h.tail, fun _ => hslot, fun h0 => ?_⟩, ?_, hfirst.symm⟩
    · dsimp only
      omega
    · dsimp only at h0
      omega
    · obtain ⟨n, hn⟩ : ∃ n, q.elements = n + 1 := ⟨q.elements - 1, by omega⟩
      simp [items, hn, contents]

theorem Ok.takeTail (h : q.Ok) :
    q.takeTail.1.Ok ∧ q.takeTail.1.items = q.items.dropLast ∧ q.takeTail.2 = q.items.getLast? := by
  unfold QueueT.takeTail
  split
  · rename_i hnone
    simp [h, items_empty hnone]
  · rename_i hsome
    have hsize := h.size
    have hc : 0 < q.capacity := by omega
    have ht := h.tail hc
    have hmove := h.moveForwards ht
    have hlast := h.tail_element hsome
    refine ⟨⟨?_, h.bound, fun _ => ?_, fun _ => ?_, fun h0 => ?_⟩, ?_, ?_⟩
    · dsimp only
      omega
    · simpa only [hmove] using next_lt ht
    · obtain ⟨n, hn⟩ : ∃ n, q.elements = n + 1 := ⟨q.elements - 1, by omega⟩
      simp only [hmove, hn, Nat.add_sub_cancel, h.head hc]
      exact (slot_next ht (by omega)).symm
    · dsimp only at h0
      omega
    · rw [hlast, List.dropLast_concat]
      rfl
    · rw [hlast]
      simp

/-! ## Calls -/

/-- A queue in order that holds the deque `d`. -/
structure Holds (limit : Limit) (q : QueueT α) (d : List α) : Prop where
  ok : q.Ok
  items : q.items = d
  limit : limitOf q.allocator q.capacity = limit

theorem Holds.size {limit : Limit} (h : Holds limit q d) : q.getSize = d.length := by
  rw [← h.items, items_length]
  rfl

variable {limit : Limit}

theorem Holds.push (h : Holds limit q d) {grown : QueueT α → QueueT α} (added : List α → List α)
    {pushed : List α × Bool}
    (hgrown : ∀ q : QueueT α, q.Ok → q.elements < q.capacity →
      (grown q).Ok ∧ (grown q).items = added q.items ∧
        limitOf (grown q).allocator (grown q).capacity = limitOf q.allocator q.capacity)
    (hrefuse : limit = .refuse d.length → pushed = (d, false))
    (hadd : limit ≠ .refuse d.length → limit ≠ .window d.length → pushed = (added d, true))
    (hover : q.allocator = .overwrite → q.elements ≠ q.capacity)
    (hroom : q.allocator = .realloc → d.length + 1 < 2 ^ 31) :
    Holds limit ((q.checkCapacity malloc).elim q grown) pushed.1 ∧ (q.checkCapacity malloc).isSome = pushed.2 := by
  have hlength : q.elements = d.length := h.size
  rcases h.ok.checkCapacity malloc hover (by rwa [hlength]) with ⟨hnone, hkind, hfull⟩ | hsome
  · have hlimit : limit = .refuse d.length := by rw [← h.limit, hkind, ← hlength, hfull]; rfl
    rw [hnone, hrefuse hlimit]
    exact ⟨h, rfl⟩
  · obtain ⟨q', hq', hok, hitems, hspace, hlimit, hless⟩ := hsome
    obtain ⟨hok', hitems', hlimit'⟩ := hgrown q' hok hspace
    have hfree : limit ≠ .refuse d.length ∧ limit ≠ .window d.length := by
      rw [← h.limit, ← hlength]
      cases hkind : q.allocator with
      | realloc => simp [limitOf]
      | fixed => simpa [limitOf] using fun he => hless (by simp [hkind]) he.symm
      | overwrite => simpa [limitOf] using fun he => hless (by simp [hkind]) he.symm
    rw [hq', hadd hfree.1 hfree.2]
    refine ⟨⟨hok', ?_, ?_⟩, rfl⟩
    · rw [Option.elim_some, hitems', hitems, h.items]
    · rw [Option.elim_some, hlimit', hlimit, h.limit]

theorem Holds.pushHead (h : Holds limit q d) (x : α) (hover : q.allocator = .overwrite → q.elements ≠ q.capacity)
    (hroom : q.allocator = .realloc → d.length + 1 < 2 ^ 31) :
    Holds limit ((q.checkCapacity malloc).elim q fun q => q.grownHead.write q.head x) (Deque.pushHead limit d x).1 ∧
      (q.checkCapacity malloc).isSome = (Deque.pushHead limit d x).2 := by
  refine h.push malloc (x :: ·) (fun q hok hspace => ?_) (fun hl => ?_) (fun hr hw => ?_) hover hroom
  · obtain ⟨hok', hitems⟩ := hok.grownHead (x := x) hspace
    exact ⟨hok', hitems, rfl⟩
  · simp [Deque.pushHead, hl]
  · unfold Deque.pushHead
    cases limit with
    | unbounded => rfl
    | refuse n => exact if_neg fun he => hr (by rw [he])
    | window n => exact if_neg fun he => hw (by rw [he])

theorem Holds.pushTail (h : Holds limit q d) (x : α) (hover : q.allocator = .overwrite → q.elements ≠ q.capacity)
    (hroom : q.allocator = .realloc → d.length + 1 < 2 ^ 31) :
    Holds limit ((q.checkCapacity malloc).elim q fun q => q.grownTail.write (q.moveBackwards q.tail) x)
        (Deque.pushTail limit d x).1 ∧
      (q.checkCapacity malloc).isSome = (Deque.pushTail limit d x).2 := by
  refine h.push malloc (· ++ [x]) (fun q hok hspace => ?_) (fun hl => ?_) (fun hr hw => ?_) hover hroom
  · obtain ⟨hok', hitems⟩ := hok.grownTail (x := x) hspace
    exact ⟨hok', hitems, rfl⟩
  · simp [Deque.pushTail, hl]
  · unfold Deque.pushTail
    cases limit with
    | unbounded => rfl
    | refuse n => exact if_neg fun he => hr (by rw [he])
    | window n => exact if_neg fun he => hw (by rw [he])

theorem takeHead_limit (q : QueueT α) :
    limitOf q.takeHead.1.allocator q.takeHead.1.capacity = limitOf q.allocator q.capacity := by
  unfold takeHead
  split <;> rfl

theorem takeTail_limit (q : QueueT α) :
    limitOf q.takeTail.1.allocator q.takeTail.1.capacity = limitOf q.allocator q.capacity := by
  unfold takeTail
  split <;> rfl

theorem Holds.exec (h : Holds limit q d) (op : Op α)
    (hover : q.allocator = .overwrite → op.isPush → q.isAtCapacity = false)
    (hroom : q.allocator = .realloc → op.isPush → d.length + 1 < 2 ^ 31) :
    Holds limit (q.exec malloc op).1 (Deque.exec limit d op).1 ∧
      (q.exec malloc op).2 = (Deque.exec limit d op).2 := by
  have hover' : op.isPush → q.allocator = .overwrite → q.elements ≠ q.capacity := fun hp ha => by
    simpa [isAtCapacity] using hover ha hp
  cases op with
  | pushHead x =>
    obtain ⟨hq, hr⟩ := h.pushHead malloc x (hover' rfl) fun ha => hroom ha rfl
    simp only [QueueT.exec, Deque.exec, pushHead_eq, ← hr]
    cases hcheck : q.checkCapacity malloc <;> simpa [hcheck] using hq
  | emplaceHead x =>
    obtain ⟨hq, hr⟩ := h.pushHead malloc x (hover' rfl) fun ha => hroom ha rfl
    simp only [QueueT.exec, Deque.exec, emplaceHead_eq, ← hr]
    cases hcheck : q.checkCapacity malloc <;> simpa [hcheck] using hq
  | pushTail x =>
    obtain ⟨hq, hr⟩ := h.pushTail malloc x (hover' rfl) fun ha => hroom ha rfl
    simp only [QueueT.exec, Deque.exec, pushTail_eq, ← hr]
    cases hcheck : q.checkCapacity malloc <;> simpa [hcheck] using hq
  | emplaceTail x =>
    obtain ⟨hq, hr⟩ := h.pushTail malloc x (hover' rfl) fun ha => hroom ha rfl
    simp only [QueueT.exec, Deque.exec, emplaceTail_eq, ← hr]
    cases hcheck : q.checkCapacity malloc <;> simpa [hcheck] using hq
  | takeHead =>
    obtain ⟨hok, hitems, hvalue⟩ := h.ok.takeHead
    refine ⟨⟨hok, ?_, ?_⟩, ?_⟩
    · exact hitems.trans (congrArg List.tail h.items)
    · exact (takeHead_limit q).trans h.limit
    · exact congrArg Result.value (hvalue.trans (congrArg List.head? h.items))
  | takeTail =>
    obtain ⟨hok, hitems, hvalue⟩ := h.ok.takeTail
    refine ⟨⟨hok, ?_, ?_⟩, ?_⟩
    · exact hitems.trans (congrArg List.dropLast h.items)
    · exact (takeTail_limit q).trans h.limit
    · exact congrArg Result.value (hvalue.trans (congrArg List.getLast? h.items))
  | peekHead =>
    refine ⟨h, congrArg Result.value ?_⟩
    rw [← h.items]
    unfold QueueT.peekHead
    split
    · rename_i hnone
      simp [items_empty hnone]
    · rename_i hsome
      exact (h.ok.head_element hsome).2.symm
  | peekTail =>
    refine ⟨h, congrArg Result.value ?_⟩
    rw [← h.items]
    unfold QueueT.peekTail
    split
    · rename_i hnone
      simp [items_empty hnone]
    · rename_i hsome
      simp [h.ok.tail_element hsome]

/-! ## The iterator -/

inductive Yields (q : QueueT α) : IterHead2tail → List α → Prop
  | done {it it' : IterHead2tail} : q.iterNext it = (none, it') → Yields q it []
  | next {it it' : IterHead2tail} {i : ℕ} {xs : List α} : q.iterNext it = (some i, it') → Yields q it' xs →
      Yields q it (q.queue i :: xs)

theorem Ok.iterNext (h : q.Ok) (hn : n < q.elements) :
    q.iterNext ⟨false, slot q.capacity q.tail (n + 1), q.tail⟩ =
      (some (slot q.capacity q.tail n), ⟨decide (n = 0), slot q.capacity q.tail n, q.tail⟩) := by
  have hsize := h.size
  have ht := h.tail (by omega)
  have hcurr : subU32 (if slot q.capacity q.tail (n + 1) ≤ 0 then q.capacity else slot q.capacity q.tail (n + 1)) 1 =
      slot q.capacity q.tail n := by
    have hback := h.moveBackwards (slot_lt ht (by omega : n + 1 ≤ q.capacity))
    rw [prev_slot ht] at hback
    simpa only [QueueT.moveBackwards, Nat.le_zero] using hback
  have hlast : slot q.capacity q.tail n = q.tail ↔ n = 0 := by
    constructor
    · intro he
      by_contra hne
      exact slot_ne (t := q.tail) (by omega : n < q.capacity) (by omega : 0 < q.capacity) hne (by rw [he, slot_zero ht])
    · rintro rfl
      exact slot_zero ht
  rw [QueueT.iterNext, if_neg (by simp; omega)]
  dsimp only [getCapacity]
  rw [hcurr]
  by_cases h0 : n = 0
  · rw [if_pos (hlast.mpr h0), decide_eq_true h0]
  · rw [if_neg (hlast.not.mpr h0), decide_eq_false h0]

theorem Ok.yields (h : q.Ok) (hn : n < q.elements) :
    Yields q ⟨false, slot q.capacity q.tail (n + 1), q.tail⟩ (contents q.queue q.capacity q.tail (n + 1)) := by
  induction n with
  | zero =>
    have hdone : q.iterNext ⟨true, slot q.capacity q.tail 0, q.tail⟩ =
        (none, ⟨true, slot q.capacity q.tail 0, q.tail⟩) := by simp [QueueT.iterNext]
    exact .next (h.iterNext hn) (.done hdone)
  | succ n ih =>
    have hnext := h.iterNext hn
    exact .next hnext (ih (by omega))

theorem Ok.yields_items (h : q.Ok) : Yields q q.intoHead2tailIter q.items := by
  by_cases hnone : q.elements = 0
  · rw [items_empty hnone]
    have hdone : q.iterNext q.intoHead2tailIter = (none, q.intoHead2tailIter) := by simp [QueueT.iterNext, hnone]
    exact .done hdone
  · have hsize := h.size
    obtain ⟨n, hn⟩ : ∃ n, q.elements = n + 1 := ⟨q.elements - 1, by omega⟩
    rw [intoHead2tailIter, h.head (by omega), items, hn]
    exact h.yields (by omega)

theorem Yields.foreach {xs : List α} (h : Yields q it xs) (fn : β → α → β) (args : β) {fuel : ℕ} (hf : xs.length < fuel) :
    q.foreach fn fuel it args = some (xs.foldl fn args) := by
  obtain ⟨fuel, rfl⟩ : ∃ k, fuel = k + 1 := ⟨fuel - 1, by omega⟩
  induction h generalizing fuel args with
  | done hnext => simp [QueueT.foreach, hnext]
  | next hnext _ ih =>
    simp only [List.length_cons] at hf
    obtain ⟨fuel, rfl⟩ : ∃ k, fuel = k + 1 := ⟨fuel - 1, by omega⟩
    rw [QueueT.foreach, hnext]
    exact ih _ fuel (by omega)

/-! ## Runs -/

theorem init_holds {capacity : ℕ} {ptr : Option (ℕ → α)} {allocator : QueueAllocator} (hc : capacity < 2 ^ 32)
    (hq : init malloc capacity ptr allocator = some q) : Holds (limitOf allocator capacity) q [] := by
  unfold init at hq
  split at hq
  · cases hq
  · cases hq
    refine ⟨⟨Nat.zero_le _, hc, id, fun h => (slot_zero h).symm, fun _ => ⟨rfl, rfl⟩⟩, rfl, rfl⟩

theorem Holds.overwrite (h : Holds limit q d) (hkind : q.allocator = .overwrite) : limit = .window q.capacity := by
  rw [← h.limit, hkind]
  rfl

theorem Holds.unbounded (h : Holds limit q d) (hkind : q.allocator = .realloc) : limit = .unbounded := by
  rw [← h.limit, hkind]
  rfl

theorem exec_unbounded_length {op : Op α} (hp : op.isPush) : (Deque.exec .unbounded d op).1.length = d.length + 1 := by
  cases op <;> simp_all [Deque.exec, Deque.pushHead, Deque.pushTail, Op.isPush]

theorem Holds.run (h : Holds limit q d) (ops : List (Op α))
    (hover : ∀ k op, ops[k]? = some op → (∃ n, limit = .window n) → op.isPush →
      (q.run malloc (ops.take k)).1.isAtCapacity = false)
    (hroom : limit = .unbounded → ∀ k, (Deque.run limit d (ops.take k)).1.length < 2 ^ 31) :
    Holds limit (q.run malloc ops).1 (Deque.run limit d ops).1 ∧
      (q.run malloc ops).2 = (Deque.run limit d ops).2 := by
  induction ops generalizing q d with
  | nil => exact ⟨h, rfl⟩
  | cons op ops ih =>
    obtain ⟨hq, hr⟩ := h.exec malloc op
      (fun ha hp => hover 0 op rfl ⟨_, h.overwrite ha⟩ hp)
      (fun ha hp => by
        have hlength := hroom (h.unbounded ha) 1
        rw [h.unbounded ha] at hlength
        have hgrows := exec_unbounded_length (d := d) hp
        simpa [Deque.run, hgrows] using hlength)
    obtain ⟨hrun, hrest⟩ := ih hq (fun k op' hk => hover (k + 1) op' hk) (fun hl k => hroom hl (k + 1))
    refine ⟨hrun, ?_⟩
    simp only [QueueT.run, Deque.run]
    rw [hr, hrest]

/-- **A queue that refuses or moves is a deque.** -/
theorem queue_refines_deque {capacity : ℕ} {ptr : Option (ℕ → α)} {allocator : QueueAllocator}
    (hkind : allocator ≠ .overwrite) (hc : capacity < 2 ^ 32) (hq : init malloc capacity ptr allocator = some q)
    (ops : List (Op α))
    (hsize : ∀ k, (Deque.run (limitOf allocator capacity) [] (ops.take k)).1.length < 2 ^ 31) :
    let after := q.run malloc ops
    let deque := Deque.run (limitOf allocator capacity) [] ops
    after.2 = deque.2 ∧ after.1.getSize = deque.1.length ∧ Yields after.1 after.1.intoHead2tailIter deque.1 ∧
      ∀ (fn : β → α → β) (args : β) (fuel : ℕ), deque.1.length < fuel →
        after.1.foreach fn fuel after.1.intoHead2tailIter args = some (deque.1.foldl fn args) := by
  intro after deque
  have hwindow : ¬∃ n, limitOf allocator capacity = .window n := by
    rintro ⟨n, hn⟩
    cases allocator with
    | overwrite => exact hkind rfl
    | fixed => cases hn
    | realloc => cases hn
  obtain ⟨hrun, hresults⟩ := (init_holds malloc hc hq).run malloc ops
    (fun _ _ _ hw => absurd hw hwindow) (fun _ => hsize)
  have hyields : Yields after.1 after.1.intoHead2tailIter deque.1 := hrun.items ▸ hrun.ok.yields_items
  exact ⟨hresults, hrun.size, hyields, fun fn args fuel hf => hyields.foreach fn args hf⟩

/-- Storage that moves twice, the second time out of order. -/
theorem queue_refines_deque_moved :
    let ops : List (Op ℕ) := [.pushHead 1, .pushTail 2, .takeTail, .pushHead 3, .emplaceHead 4]
    let deque := Deque.run .unbounded [] ops
    deque.1 = [4, 3, 1] ∧ ∃ q, init (fun _ _ => 0) 0 none .realloc = some q ∧
      (q.run (fun _ _ => 0) ops).2 = deque.2 ∧ (q.run (fun _ _ => 0) ops).1.getSize = 3 := by
  intro ops deque
  refine ⟨by decide, _, rfl, ?_⟩
  have hsize : ∀ k, (Deque.run (limitOf .realloc 0) [] (ops.take k)).1.length < 2 ^ 31 := by
    rintro (_ | _ | _ | _ | _ | k)
    all_goals simp [ops, Deque.run, Deque.exec, Deque.pushHead, Deque.pushTail, limitOf]
  obtain ⟨hresults, hlength, -⟩ :=
    queue_refines_deque (β := ℕ) (fun _ _ => 0) (by decide : QueueAllocator.realloc ≠ .overwrite) (by decide)
      (rfl : init (fun _ _ => 0) 0 none .realloc = some _) ops hsize
  exact ⟨hresults, hlength⟩

end Dlb.QueueT

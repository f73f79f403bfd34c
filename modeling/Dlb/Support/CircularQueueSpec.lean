import Dlb.Lib.Ring
import Dlb.Support.CircularQueue
import Dlb.Support.QueueTemplateSpec

/-!
# The circular queue refines a bounded list

`Represents size q l`: the array queue `q` holds the list of `l` in the slots from the front on, round the end of the
array. Each operation on the array does what the operation on the list does (`Represents.delete`, `Represents.remove`,
…), its loops end, and in every state that is reached the queue is a list of capacity `size - 1` (`queue_refines_fifo`).
-/

namespace Dlb.CircularQueue

open List Lib.Ring

variable {α κ : Type} [DecidableEq κ] {size : ℕ} {key : α → κ} {q : CircularQueue α} {l : Queue α}

/-- The array queue holds the list from the front on. -/
structure Represents (size : ℕ) (q : CircularQueue α) (l : Queue α) : Prop where
  ok : l.Ok size
  front : q.front = l.front
  next : q.next = slot size l.front l.items.length
  block : Block q.items size l.front 0 l.items

/-! ## Positions -/

theorem slot_eq_mod {t k : ℕ} (ht : t < size) (hk : k ≤ size) : slot size t k = (t + k) % size := by
  unfold slot
  split
  · rename_i h
    exact (Nat.mod_eq_of_lt h).symm
  · rename_i h
    rw [Nat.mod_eq_sub_mod (by omega), Nat.mod_eq_of_lt (by omega)]

theorem mod_slot {t k : ℕ} (ht : t < size) (hk : k < size) : (slot size t k + 1) % size = slot size t (k + 1) := by
  rw [slot_eq_mod ht (by omega), slot_eq_mod ht hk, Nat.mod_add_mod]
  rfl

theorem mod_front {t : ℕ} (ht : t < size) : (t + 1) % size = Lib.Ring.next size t := by
  unfold Lib.Ring.next
  split
  · rename_i h
    exact Nat.mod_eq_of_lt h
  · rw [show t + 1 = size by omega, Nat.mod_self]

theorem Represents.next_eq (h : Represents size q l) : q.next = l.next size := by
  rw [h.next, slot_eq_mod h.ok.front (Nat.le_of_lt h.ok.length)]
  rfl

theorem Represents.length (h : Represents size q l) : q.length size = l.items.length := by
  have hf := h.ok.front
  have hl := h.ok.length
  unfold CircularQueue.length
  rw [h.front, h.next]
  unfold slot
  split_ifs <;> omega

theorem Represents.empty (h : Represents size q l) : q.empty = decide (l.items = []) := by
  have hf := h.ok.front
  have hl := h.ok.length
  have hiff : l.front = slot size l.front l.items.length ↔ l.items = [] := by
    rw [← length_eq_zero_iff]
    unfold slot
    split <;> omega
  unfold CircularQueue.empty
  rw [h.front, h.next]
  exact decide_eq_decide.mpr hiff

theorem Represents.first (h : Represents size q l) : q.first = l.first := by
  unfold CircularQueue.first Queue.first
  rw [h.empty, h.front]
  by_cases hempty : l.items = [] <;> simp [hempty]

theorem Represents.back (h : Represents size q l) :
    q.back size = if l.items = [] then none else some (slot size l.front (l.items.length - 1)) := by
  unfold CircularQueue.back
  rw [h.empty]
  by_cases hempty : l.items = []
  · simp [hempty]
  · have hpos := length_pos_iff.mpr hempty
    have hrear : (if 0 < q.next then q.next - 1 else size - 1) = slot size l.front (l.items.length - 1) := by
      rw [h.next]
      unfold slot
      split_ifs <;> omega
    simp [hempty, hrear]

theorem Represents.advance (h : Represents size q l) (item : ℕ) : q.advance size item = l.advance size item := by
  unfold CircularQueue.advance Queue.advance
  rw [h.empty, h.front, h.next_eq]
  by_cases hempty : l.items = [] <;> simp [hempty]

theorem Represents.hasSpace (h : Represents size q l) : q.hasSpace size = l.hasSpace size := by
  have hf := h.ok.front
  have hl := h.ok.length
  have hiff : (q.next + 1) % size ≠ q.front ↔ l.items.length + 1 < size := by
    rw [h.next, h.front, mod_slot hf hl]
    unfold slot
    split <;> omega
  exact decide_eq_decide.mpr hiff

theorem Represents.item (h : Represents size q l) {k : ℕ} {x : α} (hk : l.items[k]? = some x) :
    q.items (slot size l.front k) = x := by
  have := h.block.getElem hk
  rwa [Nat.zero_add] at this

/-! ## Enqueue and dequeue -/

theorem Represents.init (hsize : 0 < size) (zero : α) : Represents size (init zero) {} :=
  ⟨Queue.Ok.empty hsize, rfl, (slot_zero hsize).symm, trivial⟩

theorem Represents.clear (h : Represents size q l) : Represents size q.clear {} :=
  ⟨Queue.Ok.empty (Nat.zero_lt_of_lt h.ok.front), rfl, (slot_zero (Nat.zero_lt_of_lt h.ok.front)).symm, trivial⟩

theorem Represents.enqueue (h : Represents size q l) (item : α) :
    if l.items.length + 1 < size then
      ∃ q', q.enqueue size item = some q' ∧ Represents size q' { l with items := l.items ++ [item] }
    else q.enqueue size item = none := by
  have hspace := h.hasSpace
  have hf := h.ok.front
  unfold CircularQueue.hasSpace Queue.hasSpace at hspace
  rw [decide_eq_decide] at hspace
  split
  · rename_i hroom
    refine ⟨_, if_neg (hspace.mpr hroom), ⟨hf, by simpa using hroom⟩, h.front, ?_, ?_⟩
    · rw [h.next, mod_slot hf h.ok.length, length_append, length_singleton]
    · rw [h.next]
      refine Block.append.mpr ⟨h.block.update (by omega) (by omega) (Or.inr (by omega)) item, ?_, trivial⟩
      rw [Nat.zero_add]
      exact Function.update_self ..
  · rename_i hfull
    exact if_pos (not_not.mp fun hne => hfull (hspace.mp hne))

theorem Represents.pop {x : α} {rest : List α} (h : Represents size q l) (hl : l.items = x :: rest) :
    Represents size { q with front := (q.front + 1) % size } ⟨rest, (l.front + 1) % size⟩ := by
  have hf := h.ok.front
  have hlen := h.ok.length
  have hblock := h.block
  have hnext := h.next
  rw [hl, length_cons] at hlen hnext
  rw [hl] at hblock
  refine ⟨⟨Nat.mod_lt _ (by omega), Nat.lt_of_succ_lt hlen⟩, ?_, ?_, ?_⟩
  · rw [h.front]
  · dsimp only
    rw [hnext, mod_front hf, slot_next hf (by omega)]
  · dsimp only
    rw [mod_front hf]
    exact (Block.next hf (by omega)).mpr hblock.2

theorem Represents.dequeue (h : Represents size q l) :
    match l.items with
    | [] => q.dequeue size = none
    | x :: rest => ∃ q', q.dequeue size = some (x, q') ∧ Represents size q' ⟨rest, (l.front + 1) % size⟩ := by
  unfold CircularQueue.dequeue
  rw [h.empty]
  split
  · rename_i hl
    simp [hl]
  · rename_i x rest hl
    have hx : q.items q.front = x := by
      have := h.item (k := 0) (x := x) (by rw [hl]; rfl)
      rwa [slot_zero h.ok.front, ← h.front] at this
    rw [if_neg (by simp [hl]), hx]
    exact ⟨_, rfl, h.pop hl⟩

/-! ## Delete -/

theorem moveForward_eq {t next : ℕ} (ht : t < size) (bs : List α) : ∀ (items : ℕ → α) (w steps : ℕ),
    bs.length < steps → w + 1 + bs.length < size → next = slot size t (w + 1 + bs.length) →
      Block items size t (w + 1) bs →
      ∃ items', moveForward size next steps items (slot size t (w + 1)) (slot size t w) =
          some (items', slot size t (w + bs.length)) ∧
        Block items' size t w bs ∧ ∀ i < w, items' (slot size t i) = items (slot size t i) := by
  induction bs with
  | nil =>
    rintro items w (_ | steps) hsteps hsize hnext -
    · exact absurd hsteps (Nat.not_lt_zero _)
    · exact ⟨items, if_pos hnext.symm, trivial, fun _ _ => rfl⟩
  | cons x bs ih =>
    rintro items w (_ | steps) hsteps hsize hnext hblock
    · exact absurd hsteps (Nat.not_lt_zero _)
    · rw [length_cons] at hsteps hsize hnext ⊢
      have hread : slot size t (w + 1) ≠ next := by
        rw [hnext]
        exact slot_ne (by omega) (by omega) (by omega)
      obtain ⟨items', heq, hmoved, hsame⟩ := ih
        (Function.update items (slot size t w) (items (slot size t (w + 1)))) (w + 1) steps (by omega) (by omega)
        (by rw [hnext]; congr 1; omega) (hblock.2.update (by omega) (by omega) (Or.inl (by omega)) _)
      refine ⟨items', ?_, ⟨?_, hmoved⟩, fun i hi => ?_⟩
      · rw [moveForward, if_neg hread, mod_slot ht (by omega), mod_slot ht (by omega), heq]
        congr 3
        omega
      · rw [hsame w (by omega), Function.update_self]
        exact hblock.1
      · rw [hsame i (by omega), Function.update_of_ne (slot_ne (by omega) (by omega) (by omega))]

theorem Represents.delete (h : Represents size q l) {k : ℕ} (hk : k < l.items.length) :
    ∃ q', q.delete size (slot size l.front k) = some q' ∧
      Represents size q' (l.delete size (slot size l.front k)) ∧
      (l.delete size (slot size l.front k)).items = l.items.eraseIdx k := by
  have hf := h.ok.front
  have hl := h.ok.length
  have hnonempty : ¬q.empty = true := by
    rw [h.empty, decide_eq_true_eq]
    exact ne_nil_of_length_pos (by omega)
  unfold CircularQueue.delete
  rw [if_neg hnonempty]
  rcases Nat.eq_zero_or_pos k with rfl | hpos
  · obtain ⟨x, rest, hitems⟩ := exists_cons_of_length_pos hk
    rw [slot_zero hf, if_pos h.front.symm]
    unfold Queue.delete
    rw [if_pos rfl, hitems]
    exact ⟨_, rfl, h.pop hitems, by simp⟩
  · have hfront : slot size l.front k ≠ l.front := by
      unfold slot
      split <;> omega
    have hindex : (slot size l.front k + size - l.front) % size = k := by
      unfold slot
      split
      · rw [show l.front + k + size - l.front = k + size by omega, Nat.add_mod_right, Nat.mod_eq_of_lt (by omega)]
      · rw [show l.front + k - size + size - l.front = k by omega, Nat.mod_eq_of_lt (by omega)]
    have hinside : ¬((l.front < slot size l.front l.items.length ∧
        (slot size l.front k < l.front ∨ slot size l.front l.items.length ≤ slot size l.front k)) ∨
        (slot size l.front l.items.length ≤ l.front ∧ slot size l.front l.items.length ≤ slot size l.front k ∧
          slot size l.front k < l.front)) := by
      unfold slot
      split_ifs <;> omega
    rw [h.front, h.next, if_neg hfront, if_neg hinside, mod_slot hf (by omega)]
    -- the items before the one that is deleted, and those behind it
    have hsplit : l.items = l.items.take k ++ (l.items[k] :: l.items.drop (k + 1)) := by
      rw [getElem_cons_drop, take_append_drop]
    have hblock := h.block
    rw [hsplit, Block.append, length_take, Nat.min_eq_left (Nat.le_of_lt hk), Nat.zero_add] at hblock
    obtain ⟨items', heq, hmoved, hsame⟩ := moveForward_eq hf (l.items.drop (k + 1)) q.items k size
      (by rw [length_drop]; omega) (by rw [length_drop]; omega)
      (by rw [length_drop]; congr 1; omega : slot size l.front l.items.length = _) hblock.2.2
    have herase : (l.delete size (slot size l.front k)).items = l.items.eraseIdx k := by
      unfold Queue.delete
      rw [if_neg hfront, hindex]
    have hlength : (l.items.eraseIdx k).length = l.items.length - 1 := length_eraseIdx_of_lt hk
    rw [heq]
    refine ⟨_, rfl, ?_, herase⟩
    unfold Queue.delete
    rw [if_neg hfront, hindex]
    refine ⟨⟨hf, by dsimp only; omega⟩, rfl, ?_, ?_⟩
    · dsimp only
      rw [hlength, length_drop]
      congr 1
      omega
    · dsimp only
      rw [eraseIdx_eq_take_drop_succ, Block.append, length_take, Nat.min_eq_left (Nat.le_of_lt hk), Nat.zero_add]
      refine ⟨hblock.1.congr fun i _ hi => ?_, hmoved⟩
      rw [length_take] at hi
      exact hsame i (by omega)

/-! ## Remove -/

variable (key) in
theorem skipFirst_eq (k : κ) (items : List α) : ∀ (q : CircularQueue α) (front steps : ℕ), items.length < steps →
    Represents size q ⟨items, front⟩ → ∃ q', skipFirst size key k steps q = some q' ∧
      Represents size q' ⟨items.dropWhile (key · = k),
        (front + (items.takeWhile (key · = k)).length) % size⟩ := by
  induction items with
  | nil =>
    rintro q front (_ | steps) hsteps h
    · exact absurd hsteps (Nat.not_lt_zero _)
    · have hempty : q.empty = true := by rw [h.empty]; rfl
      refine ⟨q, if_neg fun hc => hc.1 hempty, ?_⟩
      rw [dropWhile_nil, takeWhile_nil, length_nil, Nat.add_zero, Nat.mod_eq_of_lt h.ok.front]
      exact h
  | cons x items ih =>
    rintro q front (_ | steps) hsteps h
    · exact absurd hsteps (Nat.not_lt_zero _)
    · have hfilled : ¬q.empty = true := by rw [h.empty]; simp
      have hx : q.items q.front = x := by
        have := h.item (k := 0) (x := x) rfl
        rwa [slot_zero h.ok.front, ← h.front] at this
      by_cases hk : key x = k
      · obtain ⟨q', heq, hrep⟩ := ih _ _ steps (Nat.lt_of_succ_lt_succ hsteps) (h.pop rfl)
        refine ⟨q', ?_, ?_⟩
        · rw [skipFirst, if_pos ⟨hfilled, hx ▸ hk⟩]
          exact heq
        · rw [dropWhile_cons_of_pos (by simpa using hk), takeWhile_cons_of_pos (by simpa using hk),
            length_cons, Nat.add_comm _ 1, ← Nat.add_assoc]
          rwa [Nat.mod_add_mod] at hrep
      · refine ⟨q, if_neg fun hc => hk (hx ▸ hc.2), ?_⟩
        rw [dropWhile_cons_of_neg (by simpa using hk), takeWhile_cons_of_neg (by simpa using hk),
          length_nil, Nat.add_zero, Nat.mod_eq_of_lt h.ok.front]
        exact h

theorem squeeze_eq {t next : ℕ} (ht : t < size) (k : κ) (bs : List α) : ∀ (items : ℕ → α) (r w steps : ℕ),
    bs.length < steps → w ≤ r → r + bs.length < size → next = slot size t (r + bs.length) →
      Block items size t r bs →
      ∃ items', squeeze size key k next steps items (slot size t r) (slot size t w) =
          some (items', slot size t (w + (bs.filter (key · ≠ k)).length)) ∧
        Block items' size t w (bs.filter (key · ≠ k)) ∧ ∀ i < w, items' (slot size t i) = items (slot size t i) := by
  induction bs with
  | nil =>
    rintro items r w (_ | steps) hsteps hw hsize hnext -
    · exact absurd hsteps (Nat.not_lt_zero _)
    · exact ⟨items, if_pos hnext.symm, trivial, fun _ _ => rfl⟩
  | cons x bs ih =>
    rintro items r w (_ | steps) hsteps hw hsize hnext hblock
    · exact absurd hsteps (Nat.not_lt_zero _)
    · rw [length_cons] at hsteps hsize hnext
      have hread : slot size t r ≠ next := by
        rw [hnext]
        exact slot_ne (by omega) (by omega) (by omega)
      obtain ⟨hx, hblock⟩ := hblock
      -- after the copy the item is at both places, and nothing else has changed
      obtain ⟨items1, hitems₁, hwrite, hkept, hother⟩ : ∃ items1,
          (if slot size t r ≠ slot size t w then Function.update items (slot size t w) (items (slot size t r))
            else items) = items1 ∧ items1 (slot size t w) = x ∧ items1 (slot size t r) = x ∧
          ∀ i < size, i ≠ w → items1 (slot size t i) = items (slot size t i) := by
        by_cases hrw : r = w
        · subst hrw
          exact ⟨items, if_neg fun h => h rfl, hx, hx, fun _ _ _ => rfl⟩
        · have hne : slot size t r ≠ slot size t w := slot_ne (by omega) (by omega) hrw
          exact ⟨_, if_pos hne, by rw [Function.update_self, hx], by rw [Function.update_of_ne hne, hx],
            fun i hi hiw => Function.update_of_ne (slot_ne hi (by omega) hiw) _ _⟩
      have hblock₁ : Block items1 size t (r + 1) bs := hblock.congr fun i hi hi' => hother i (by omega) (by omega)
      rw [squeeze, if_neg hread]
      dsimp only
      rw [hitems₁, hkept, mod_slot ht (by omega), mod_slot ht (by omega)]
      have hnext' : next = slot size t (r + 1 + bs.length) := by rw [hnext]; congr 1; omega
      by_cases hk : key x = k
      · obtain ⟨items', heq, hmoved, hsame⟩ := ih items1 (r + 1) w steps (by omega) (by omega) (by omega) hnext' hblock₁
        rw [if_neg (not_not.mpr hk), filter_cons_of_neg (by simpa using hk)]
        exact ⟨items', heq, hmoved, fun i hi => (hsame i hi).trans (hother i (by omega) (by omega))⟩
      · obtain ⟨items', heq, hmoved, hsame⟩ :=
          ih items1 (r + 1) (w + 1) steps (by omega) (by omega) (by omega) hnext' hblock₁
        rw [if_pos hk, filter_cons_of_pos (by simpa using hk)]
        refine ⟨items', ?_, ⟨(hsame w (by omega)).trans hwrite, hmoved⟩, fun i hi =>
          (hsame i (by omega)).trans (hother i (by omega) (by omega))⟩
        rw [heq, length_cons]
        congr 3
        omega

variable (key) in
theorem Represents.remove (h : Represents size q l) (k : κ) :
    ∃ q', q.remove size key k = some q' ∧ Represents size q' (l.remove size fun x => decide (key x = k)) := by
  have hl := h.ok.length
  obtain ⟨q1, hskip, h1⟩ := skipFirst_eq key k l.items q l.front size hl h
  have hfilter : ∀ items : List α, items.filter (fun x => !decide (key x = k)) =
      (items.dropWhile (key · = k)).filter (fun x => decide (key x ≠ k)) := by
    intro items
    induction items with
    | nil => rfl
    | cons x items ih =>
      by_cases hx : key x = k
      · rw [filter_cons_of_neg (by simpa using hx), dropWhile_cons_of_pos (by simpa using hx), ih]
      · rw [dropWhile_cons_of_neg (by simpa using hx)]
        simp
  unfold CircularQueue.remove Queue.remove
  rw [hskip, hfilter]
  generalize (l.front + (l.items.takeWhile (key · = k)).length) % size = front at h1
  cases hrest : l.items.dropWhile (key · = k) with
  | nil =>
    rw [hrest] at h1
    have hempty : q1.empty = true := by rw [h1.empty]; rfl
    exact ⟨q1, if_pos hempty, h1⟩
  | cons x rest =>
    rw [hrest] at h1
    have hfilled : ¬q1.empty = true := by rw [h1.empty]; simp
    have hx : ¬key x = k := by
      have hhead := head?_dropWhile_not (fun x => decide (key x = k)) l.items
      rw [hrest] at hhead
      simpa using hhead
    have hf1 := h1.ok.front
    have hl1 : rest.length + 1 < size := h1.ok.length
    have hwrite : (q1.front + 1) % size = slot size front 1 := by
      have hfront : q1.front = front := h1.front
      rw [hfront, mod_front hf1, ← slot_zero (next_lt hf1)]
      exact slot_next hf1 (by omega)
    have hnext : q1.next = slot size front (1 + rest.length) := by rw [Nat.add_comm]; exact h1.next
    obtain ⟨items', heq, hmoved, hsame⟩ := @squeeze_eq _ _ _ size key front q1.next hf1 k rest q1.items 1 1 size (by omega)
      (Nat.le_refl 1) (by omega) hnext h1.block.2
    rw [filter_cons_of_pos (by simpa using hx)]
    refine ⟨{ q1 with items := items', next := slot size front (1 + (rest.filter (key · ≠ k)).length) }, ?_, ?_⟩
    · refine (if_neg hfilled).trans ?_
      rw [hwrite, heq]
      rfl
    · have hle := length_filter_le (fun x => decide (key x ≠ k)) rest
      refine ⟨⟨hf1, by rw [length_cons]; omega⟩, h1.front, ?_, ?_, hmoved⟩
      · dsimp only
        rw [length_cons, Nat.add_comm]
      · exact (hsame 0 (by omega)).trans h1.block.1

/-! ## Search and replace -/

variable (key) in
theorem searchFrom_eq (h : Represents size q l) (k : κ) : ∀ (bs : List α) (i steps : ℕ), bs.length < steps →
    i + bs.length = l.items.length → l.items.drop i = bs →
    searchFrom size key q k steps (slot size l.front i) =
      some ((bs.findIdx? (key · = k)).map fun j => slot size l.front (i + j)) := by
  have hf := h.ok.front
  have hl := h.ok.length
  intro bs
  induction bs with
  | nil =>
    rintro i (_ | steps) hsteps hi -
    · exact absurd hsteps (Nat.not_lt_zero _)
    · refine if_pos ?_
      rw [h.next, ← hi]
      rfl
  | cons x bs ih =>
    rintro i (_ | steps) hsteps hi hdrop
    · exact absurd hsteps (Nat.not_lt_zero _)
    · rw [length_cons] at hsteps hi
      have hindex : slot size l.front i ≠ q.next := by
        rw [h.next]
        exact slot_ne (by omega) hl (by omega)
      have hlt : i < l.items.length := by omega
      rw [drop_eq_getElem_cons hlt, cons.injEq] at hdrop
      obtain ⟨hx, hdrop⟩ := hdrop
      have hitem : q.items (slot size l.front i) = x := h.item (by rw [getElem?_eq_getElem hlt, hx])
      rw [searchFrom, if_neg hindex, hitem, findIdx?_cons]
      by_cases hk : key x = k
      · rw [if_pos hk, if_pos (by simpa using hk)]
        rfl
      · rw [if_neg hk, if_neg (by simpa using hk), mod_slot hf (by omega),
          ih (i + 1) steps (by omega) (by omega) hdrop, Option.map_map]
        refine congrArg (fun f => some (Option.map f _)) (funext fun j => ?_)
        dsimp only [Function.comp_apply]
        congr 1
        omega

variable (key) in
theorem Represents.search (h : Represents size q l) (k : κ) :
    q.search size key k = some ((l.items.findIdx? (key · = k)).map (slot size l.front)) := by
  have := searchFrom_eq key h k l.items 0 size h.ok.length (Nat.zero_add _) rfl
  rw [slot_zero h.ok.front, ← h.front] at this
  unfold CircularQueue.search
  rw [this]
  simp only [Nat.zero_add, h.front]

/-- The list with the first item with the key of `item` replaced. -/
def replaceFirst (key : α → κ) (item : α) (items : List α) : List α :=
  match items.findIdx? (key · = key item) with
  | some i => items.set i item
  | none => items

variable (key) in
theorem Represents.replace (h : Represents size q l) (item : α) :
    ∃ q', q.replace size key item = some q' ∧
      Represents size q' { l with items := replaceFirst key item l.items } := by
  have hsearch := h.search key (key item)
  unfold CircularQueue.search at hsearch
  unfold CircularQueue.replace replaceFirst
  rw [hsearch]
  cases hfind : l.items.findIdx? (key · = key item) with
  | none => exact ⟨q, rfl, h⟩
  | some i =>
    have hi : i < l.items.length := (findIdx?_eq_some_iff_getElem.mp hfind).1
    have hl := h.ok.length
    have hblock := h.block.set (i := i) (by omega) hi item
    rw [Nat.zero_add] at hblock
    refine ⟨_, rfl, ⟨h.ok.front, ?_⟩, h.front, ?_, hblock⟩
    · rw [length_set]
      exact hl
    · rw [length_set]
      exact h.next

/-! ## Iteration -/

theorem visits_eq (h : Represents size q l) : ∀ (steps i : ℕ), l.items.length ≤ i + steps → i < l.items.length →
    visits size q steps (some (slot size l.front i)) =
      some ((range' i (l.items.length - i)).map (slot size l.front)) := by
  intro steps
  induction steps with
  | zero => exact fun i hle hi => absurd hi (Nat.not_lt_of_le hle)
  | succ steps ih =>
    intro i hle hi
    have hl := h.ok.length
    have hrange : range' i (l.items.length - i) = i :: range' (i + 1) (l.items.length - (i + 1)) := by
      rw [show l.items.length - i = l.items.length - (i + 1) + 1 by omega, range'_succ]
    rw [visits, h.advance, slot_eq_mod h.ok.front (by omega), Queue.advance_pos h.ok hi, hrange]
    by_cases hlast : i + 1 < l.items.length
    · rw [if_pos hlast, ← slot_eq_mod (k := i + 1) h.ok.front (by omega), ih (i + 1) (by omega) hlast, map_cons,
        slot_eq_mod (k := i) h.ok.front (by omega)]
      rfl
    · rw [if_neg hlast, show l.items.length - (i + 1) = 0 by omega, range'_zero, map_cons, map_nil,
        slot_eq_mod h.ok.front (by omega)]
      cases steps <;> rfl

theorem Represents.visits (h : Represents size q l) :
    visits size q size q.first = some ((range l.items.length).map (slot size l.front)) := by
  rw [h.first]
  unfold Queue.first
  by_cases hempty : l.items = []
  · rw [if_pos hempty, hempty]
    cases size <;> rfl
  · have hpos := length_pos_iff.mpr hempty
    have hl := h.ok.length
    have := visits_eq h size 0 (by omega) hpos
    rw [slot_zero h.ok.front] at this
    rw [if_neg hempty, this, range_eq_range']
    rfl

/-! ## Runs -/

/-- The place in the list of the item that a caller obtains a pointer to. -/
def Handle.index (key : α → κ) (items : List α) : Handle κ → Option ℕ
  | .first => if items = [] then none else some 0
  | .advance h => (h.index key items).bind fun i => if i + 1 < items.length then some (i + 1) else none
  | .search k => items.findIdx? (key · = k)

/-- What an operation does to a list of capacity `size - 1`. -/
def Op.fifo (size : ℕ) (key : α → κ) (items : List α) : Op α κ → List α
  | .enqueue item => if items.length < size - 1 then items ++ [item] else items
  | .dequeue => items.tail
  | .delete h => ((h.index key items).map items.eraseIdx).getD items
  | .remove k => items.filter (key · ≠ k)
  | .replace item => replaceFirst key item items
  | .search _ => items
  | .clear => []

theorem Handle.index_lt {items : List α} {h : Handle κ} {i : ℕ} (hi : h.index key items = some i) :
    i < items.length := by
  cases h with
  | first =>
    unfold Handle.index at hi
    split at hi
    · cases hi
    · rename_i hne
      exact Option.some.inj hi ▸ length_pos_iff.mpr hne
  | advance h =>
    obtain ⟨j, -, hj⟩ := Option.bind_eq_some_iff.mp hi
    split at hj
    · rename_i hlt
      exact Option.some.inj hj ▸ hlt
    · cases hj
  | search k => exact (findIdx?_eq_some_iff_getElem.mp hi).1

theorem Represents.handle (h : Represents size q l) (p : Handle κ) :
    p.item size key q = some ((p.index key l.items).map (slot size l.front)) := by
  induction p with
  | first =>
    unfold Handle.item Handle.index
    rw [h.first]
    unfold Queue.first
    by_cases hempty : l.items = []
    · simp [hempty]
    · rw [if_neg hempty, if_neg hempty, Option.map_some, slot_zero h.ok.front]
  | advance p ih =>
    have hl := h.ok.length
    unfold Handle.item Handle.index
    rw [ih]
    cases hi : p.index key l.items with
    | none => rfl
    | some i =>
      have hlt := Handle.index_lt hi
      simp only [Option.map_some, Option.bind_some]
      rw [h.advance, slot_eq_mod h.ok.front (by omega), Queue.advance_pos h.ok hlt]
      split
      · rw [Option.map_some, slot_eq_mod h.ok.front (by omega)]
      · rfl
  | search k => exact h.search key k

variable (key) in
theorem Represents.exec (h : Represents size q l) (op : Op α κ) :
    ∃ q' l', op.exec size key q = some q' ∧ Represents size q' l' ∧ l'.items = op.fifo size key l.items := by
  cases op with
  | enqueue item =>
    have hspec := h.enqueue item
    split at hspec
    · rename_i hroom
      obtain ⟨q', heq, hrep⟩ := hspec
      refine ⟨q', _, ?_, hrep, (if_pos (by omega)).symm⟩
      rw [Op.exec, heq]
      rfl
    · rename_i hfull
      refine ⟨q, l, ?_, h, (if_neg (by omega)).symm⟩
      rw [Op.exec, hspec]
      rfl
  | dequeue =>
    have hspec := h.dequeue
    split at hspec
    · rename_i hitems
      refine ⟨q, l, ?_, h, ?_⟩
      · rw [Op.exec, hspec]
        rfl
      · rw [hitems]
        rfl
    · rename_i x rest hitems
      obtain ⟨q', heq, hrep⟩ := hspec
      refine ⟨q', _, ?_, hrep, ?_⟩
      · rw [Op.exec, heq]
        rfl
      · rw [hitems]
        rfl
  | delete p =>
    dsimp only [Op.exec, Op.fifo]
    rw [h.handle p]
    cases hi : p.index key l.items with
    | none => exact ⟨q, l, rfl, h, rfl⟩
    | some i =>
      obtain ⟨q', heq, hrep, hitems⟩ := h.delete (Handle.index_lt hi)
      exact ⟨q', _, heq, hrep, hitems⟩
  | remove k =>
    obtain ⟨q', heq, hrep⟩ := h.remove key k
    refine ⟨q', _, heq, hrep, ?_⟩
    simp only [Queue.remove, Op.fifo, decide_not]
  | replace item =>
    obtain ⟨q', heq, hrep⟩ := h.replace key item
    exact ⟨q', _, heq, hrep, rfl⟩
  | search k =>
    refine ⟨q, l, ?_, h, rfl⟩
    rw [Op.exec, h.search]
    rfl
  | clear => exact ⟨_, _, rfl, h.clear, rfl⟩

variable (key) in
theorem Represents.run (h : Represents size q l) (ops : List (Op α κ)) :
    ∃ q' l', ops.foldlM (Op.exec size key) q = some q' ∧ Represents size q' l' ∧
      l'.items = ops.foldl (Op.fifo size key) l.items := by
  induction ops generalizing q l with
  | nil => exact ⟨q, l, rfl, h, rfl⟩
  | cons op ops ih =>
    obtain ⟨q1, l1, heq, hrep, hitems⟩ := h.exec key op
    rw [foldlM_cons, heq, foldl_cons, ← hitems]
    exact ih hrep

/-- What a caller sees of a queue is a list of capacity `size - 1`. -/
structure SeenAs (size : ℕ) (key : α → κ) (q : CircularQueue α) (items : List α) : Prop where
  length_le : items.length ≤ size - 1
  length : q.length size = items.length
  empty : q.empty = decide (items = [])
  hasSpace : q.hasSpace size = decide (items.length < size - 1)
  item : ∀ i x, items[i]? = some x → q.items (slot size q.front i) = x
  apart : ∀ i < items.length, ∀ j < items.length, slot size q.front i = slot size q.front j → i = j
  enqueue_fails : ∀ item, q.enqueue size item = none ↔ items.length = size - 1
  dequeue : (q.dequeue size).map Prod.fst = items.head?
  back : q.back size = if items = [] then none else some (slot size q.front (items.length - 1))
  pointer : ∀ p : Handle κ, p.item size key q = some ((p.index key items).map (slot size q.front))
  search : ∀ k, q.search size key k = some ((items.findIdx? (key · = k)).map (slot size q.front))
  visits : visits size q size q.first = some ((range items.length).map (slot size q.front))

theorem Represents.seenAs (h : Represents size q l) : SeenAs size key q l.items where
  length_le := by
    have hl := h.ok.length
    omega
  length := h.length
  empty := h.empty
  hasSpace := by
    rw [h.hasSpace]
    exact decide_eq_decide.mpr (by omega)
  item i x hx := by
    rw [h.front]
    exact h.item hx
  apart i hi j hj heq := by
    have hl := h.ok.length
    by_contra hne
    exact slot_ne (by omega) (by omega) hne heq
  enqueue_fails item := by
    have hspec := h.enqueue item
    have hl := h.ok.length
    split at hspec
    · obtain ⟨q', heq, -⟩ := hspec
      rw [heq]
      exact iff_of_false nofun (by omega)
    · exact iff_of_true hspec (by omega)
  dequeue := by
    have hspec := h.dequeue
    split at hspec
    · rename_i hitems
      rw [hspec, hitems]
      rfl
    · rename_i x rest hitems
      obtain ⟨q', heq, -⟩ := hspec
      rw [heq, hitems]
      rfl
  back := by
    rw [h.front]
    exact h.back
  pointer p := by
    rw [h.front]
    exact h.handle p
  search k := by
    rw [h.front]
    exact h.search key k
  visits := by
    have hvisits := h.visits
    rwa [← h.front] at hvisits

/-- **The circular queue refines a bounded list**: every run of operations ends, and the queue that it leaves is seen
as the list that the same operations leave. -/
theorem queue_refines_fifo (size : ℕ) (hsize : 2 ≤ size) (key : α → κ) (zero : α) (ops : List (Op α κ)) :
    ∃ q, ops.foldlM (Op.exec size key) (init zero) = some q ∧
      SeenAs size key q (ops.foldl (Op.fifo size key) []) := by
  obtain ⟨q, l, heq, hrep, hitems⟩ := (Represents.init (by omega : 0 < size) zero).run key ops
  exact ⟨q, heq, hitems ▸ hrep.seenAs⟩

/-- Round the end of an array of four positions, with an item deleted in the middle. -/
theorem queue_refines_fifo_four : ∃ q,
    [Op.enqueue 1, .enqueue 2, .dequeue, .dequeue, .enqueue 3, .enqueue 4, .enqueue 5, .enqueue 6,
      .delete (.advance .first)].foldlM (Op.exec 4 (id : ℕ → ℕ)) (init 0) = some q ∧ SeenAs 4 id q [3, 5] :=
  queue_refines_fifo 4 (by decide) id 0 _

end Dlb.CircularQueue

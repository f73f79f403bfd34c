import Mathlib.Algebra.BigOperators.Group.List.Basic
import Dlb.Support.QueueTemplate
import Mathlib.Algebra.GroupWithZero.Nat

/-!
# What the queues of requests do

* the elements of a queue after an operation come from the elements before (`take_items`);
* a search that finds an element has found one that the test accepts (`take_found`), and a search that finds none, in a
  queue whose positions fit its array (`Queue.Ok`), has looked at all of them (`take_none`);
* a weight of the elements goes down by what a search uses up (`take_weight`).
-/

namespace Dlb.Queue

open List

variable {α : Type} {size pos : ℕ} {q : Queue α} {test : α → Bool} {key : α → ℕ} {use : α → Option α}

/-- The positions of the elements fit the array, which is never full. -/
structure Ok (size : ℕ) (q : Queue α) : Prop where
  front : q.front < size
  length : q.items.length < size

/-! ## Elements -/

theorem get?_mem {item : α} (h : q.get? size pos = some item) : item ∈ q.items := mem_of_getElem? h

theorem delete_items {y : α} (h : y ∈ (q.delete size pos).items) : y ∈ q.items := by
  unfold delete at h
  split at h
  · exact mem_of_mem_tail h
  · exact mem_of_mem_eraseIdx h

theorem put_items {item y : α} (h : y ∈ (q.put size pos item).items) : y ∈ q.items ∨ y = item :=
  mem_or_eq_of_mem_set h

theorem enqueue_items {item y : α} {q' : Queue α} (h : q.enqueue size item = some q') :
    y ∈ q'.items ↔ y ∈ q.items ∨ y = item := by
  unfold enqueue at h
  split at h
  · obtain rfl := Option.some.inj h
    simp
  · cases h

theorem remove_items {isKey : α → Bool} {y : α} : y ∈ (q.remove size isKey).items ↔ y ∈ q.items ∧ isKey y = false := by
  simp [remove]

/-! ## Positions -/

section Positions

variable {k : ℕ}

theorem mod_wrapped {n : ℕ} (h : size ≤ n) (h' : n < size + size) : n % size = n - size := by
  rw [Nat.mod_eq_sub_mod h, Nat.mod_eq_of_lt (by omega)]

theorem get?_pos (h : q.Ok size) (hk : k < q.items.length) : q.get? size ((q.front + k) % size) = q.items[k]? := by
  have hf := h.front
  have hl := h.length
  have hindex : ((q.front + k) % size + size - q.front) % size = k := by
    by_cases hwrap : q.front + k < size
    · rw [Nat.mod_eq_of_lt hwrap, show q.front + k + size - q.front = k + size by omega, Nat.add_mod_right]
      exact Nat.mod_eq_of_lt (by omega)
    · rw [mod_wrapped (by omega : size ≤ q.front + k) (by omega), show q.front + k - size + size - q.front = k by omega]
      exact Nat.mod_eq_of_lt (by omega)
  unfold get?
  rw [hindex]

theorem advance_pos (h : q.Ok size) (hk : k < q.items.length) : q.advance size ((q.front + k) % size) =
    if k + 1 < q.items.length then some ((q.front + (k + 1)) % size) else none := by
  have hf := h.front
  have hl := h.length
  have hne : q.items ≠ [] := ne_nil_of_length_pos (by omega)
  unfold advance next
  rw [if_neg hne]
  by_cases hlinear : q.front + q.items.length < size
  · rw [Nat.mod_eq_of_lt hlinear, Nat.mod_eq_of_lt (by omega : q.front + k < size), if_pos (by omega)]
    by_cases hlast : k + 1 < q.items.length
    · rw [if_pos (by omega), if_pos hlast, Nat.mod_eq_of_lt (by omega)]
      rfl
    · rw [if_neg (by omega), if_neg hlast]
  · -- the elements go round the end of the array
    rw [mod_wrapped (by omega : size ≤ q.front + q.items.length) (by omega), if_neg (by omega)]
    by_cases hend : q.front + k < size
    · rw [Nat.mod_eq_of_lt hend]
      by_cases hwrap : q.front + k + 1 < size
      · rw [if_pos hwrap, if_pos (by omega), if_pos (by omega), Nat.mod_eq_of_lt (by omega)]
        rfl
      · have heq : q.front + (k + 1) = size := by omega
        rw [if_neg hwrap, heq, Nat.mod_self]
        by_cases hlast : k + 1 < q.items.length
        · rw [if_pos (by omega), if_pos hlast]
        · rw [if_neg (by omega), if_neg hlast]
    · rw [mod_wrapped (by omega : size ≤ q.front + k) (by omega),
        mod_wrapped (by omega : size ≤ q.front + (k + 1)) (by omega),
        if_pos (by omega : q.front + k - size + 1 < size)]
      by_cases hlast : k + 1 < q.items.length
      · rw [if_pos (by omega), if_pos hlast]
        exact congrArg some (by omega)
      · rw [if_neg (by omega), if_neg hlast]

end Positions

/-! ## Queues that fit -/

theorem Ok.empty (h : 0 < size) : ({} : Queue α).Ok size := ⟨h, h⟩

theorem Ok.delete (h : q.Ok size) (pos : ℕ) : (q.delete size pos).Ok size := by
  have hf := h.front
  have hl := h.length
  unfold Queue.delete
  split
  · exact ⟨Nat.mod_lt _ (by omega), by rw [length_tail]; omega⟩
  · exact ⟨hf, Nat.lt_of_le_of_lt (length_eraseIdx_le _ _) hl⟩

theorem Ok.put (h : q.Ok size) (pos : ℕ) (item : α) : (q.put size pos item).Ok size :=
  ⟨h.front, by unfold Queue.put; rw [length_set]; exact h.length⟩

theorem Ok.enqueue (h : q.Ok size) {item : α} {q' : Queue α} (hq : q.enqueue size item = some q') : q'.Ok size := by
  unfold Queue.enqueue at hq
  split at hq
  · rename_i hspace
    obtain rfl := Option.some.inj hq
    refine ⟨h.front, ?_⟩
    unfold hasSpace at hspace
    simpa using hspace
  · cases hq

theorem Ok.remove (h : q.Ok size) (isKey : α → Bool) : (q.remove size isKey).Ok size := by
  have hf := h.front
  exact ⟨Nat.mod_lt _ (by omega), Nat.lt_of_le_of_lt (length_filter_le _ _) h.length⟩

/-! ## Search -/

section Take

variable (same : α → α → Prop)

def afterUse (size : ℕ) (use : α → Option α) (q : Queue α) (pos : ℕ) (item : α) : Queue α :=
  match use item with
  | none => q.delete size pos
  | some item' => q.put size pos item'

theorem afterUse_items (hrefl : ∀ x, same x x) (huse : ∀ x x', use x = some x' → same x' x) {item y : α}
    (hget : q.get? size pos = some item) (hy : y ∈ (q.afterUse size use pos item).items) : ∃ x ∈ q.items, same y x := by
  unfold afterUse at hy
  split at hy
  · exact ⟨y, delete_items hy, hrefl y⟩
  · rename_i item' hitem
    rcases put_items hy with hy | rfl
    · exact ⟨y, hy, hrefl y⟩
    · exact ⟨item, get?_mem hget, huse item y hitem⟩

theorem take_items (hrefl : ∀ x, same x x) (htrans : ∀ x y z, same x y → same y z → same x z)
    (huse : ∀ x x', use x = some x' → same x' x) : ∀ (fuel : ℕ) (pos : Option ℕ) (q : Queue α),
    ∀ y ∈ (take size test key use fuel pos q).1.items, ∃ x ∈ q.items, same y x
  | 0, _, q, y, hy => ⟨y, hy, hrefl y⟩
  | _ + 1, none, q, y, hy => ⟨y, hy, hrefl y⟩
  | fuel + 1, some pos, q, y, hy => by
    unfold take at hy
    cases hget : q.get? size pos with
    | none =>
      rw [hget] at hy
      exact ⟨y, hy, hrefl y⟩
    | some item =>
      rw [hget] at hy
      dsimp only at hy
      split at hy
      · split at hy
        · exact afterUse_items same hrefl huse hget hy
        · obtain ⟨x, hx, hyx⟩ := take_items hrefl htrans huse fuel _ (q.afterUse size use pos item) y hy
          obtain ⟨z, hz, hxz⟩ := afterUse_items same hrefl huse hget hx
          exact ⟨z, hz, htrans y x z hyx hxz⟩
      · exact take_items hrefl htrans huse fuel _ q y hy

theorem take_found (hsame : ∀ x x', use x = some x' → test x' = test x ∧ key x' = key x) :
    ∀ (fuel : ℕ) (pos : Option ℕ) (q : Queue α), (take size test key use fuel pos q).2 ≠ 0 →
      ∃ x ∈ q.items, test x = true ∧ key x = (take size test key use fuel pos q).2
  | 0, _, _, h => absurd rfl h
  | _ + 1, none, _, h => absurd rfl h
  | fuel + 1, some pos, q, h => by
    unfold take at h ⊢
    cases hget : q.get? size pos with
    | none =>
      rw [hget] at h
      exact absurd rfl h
    | some item =>
      rw [hget] at h
      dsimp only at h ⊢
      split at h
      · rename_i htest
        rw [if_pos htest]
        split at h
        · rename_i hkey
          rw [if_pos hkey]
          exact ⟨item, get?_mem hget, htest, rfl⟩
        · rename_i hkey
          rw [if_neg hkey]
          obtain ⟨x, hx, htx, hkx⟩ := take_found hsame fuel _ (q.afterUse size use pos item) h
          -- the element of the rest was there before, with the same key
          obtain ⟨z, hz, hxz⟩ := afterUse_items (fun x' x => test x' = test x ∧ key x' = key x)
            (fun _ => ⟨rfl, rfl⟩) hsame hget hx
          exact ⟨z, hz, hxz.1 ▸ htx, hxz.2 ▸ hkx⟩
      · rename_i htest
        rw [if_neg htest]
        exact take_found hsame fuel _ q h

theorem Ok.take : ∀ (fuel : ℕ) (pos : Option ℕ) (q : Queue α), q.Ok size → (take size test key use fuel pos q).1.Ok size
  | 0, _, _, h => h
  | _ + 1, none, _, h => h
  | fuel + 1, some pos, q, h => by
    unfold Queue.take
    cases q.get? size pos with
    | none => exact h
    | some item =>
      have huse : (q.afterUse size use pos item).Ok size := by
        unfold afterUse
        split
        · exact h.delete pos
        · exact h.put pos _
      dsimp only
      split
      · split
        · exact huse
        · exact Ok.take fuel _ _ huse
      · exact Ok.take fuel _ q h

theorem take_none (h : q.Ok size) (hkey : ∀ x ∈ q.items, test x = true → key x ≠ 0) : ∀ (fuel k : ℕ), k < q.items.length →
    q.items.length ≤ k + fuel → (take size test key use fuel (some ((q.front + k) % size)) q).2 = 0 →
      (take size test key use fuel (some ((q.front + k) % size)) q).1 = q ∧ ∀ x ∈ q.items.drop k, test x = false
  | 0, k, hk, hfuel, _ => by omega
  | fuel + 1, k, hk, hfuel, hnone => by
    unfold take at hnone ⊢
    rw [get?_pos h hk, getElem?_eq_getElem hk] at hnone ⊢
    dsimp only at hnone ⊢
    rw [drop_eq_getElem_cons hk]
    by_cases htest : test q.items[k] = true
    · rw [if_pos htest, if_pos (hkey _ (getElem_mem hk) htest)] at hnone
      exact absurd hnone (hkey _ (getElem_mem hk) htest)
    · rw [if_neg htest] at hnone ⊢
      have hfalse : test q.items[k] = false := by simpa using htest
      rw [advance_pos h hk] at hnone ⊢
      by_cases hlast : k + 1 < q.items.length
      · rw [if_pos hlast] at hnone ⊢
        obtain ⟨hsame, hrest⟩ := take_none h hkey fuel (k + 1) hlast (by omega) hnone
        refine ⟨hsame, fun x hx => ?_⟩
        rcases mem_cons.mp hx with rfl | hx
        · exact hfalse
        · exact hrest x hx
      · rw [if_neg hlast]
        refine ⟨?_, fun x hx => ?_⟩
        · cases fuel with
          | zero => rfl
          | succ fuel => rfl
        · rw [drop_of_length_le (by omega), mem_singleton] at hx
          rw [hx, hfalse]

theorem delete_nodup {item : α} (hn : q.items.Nodup) (hget : q.get? size pos = some item) :
    (q.delete size pos).items.Nodup ∧ item ∉ (q.delete size pos).items := by
  have herase : ∀ k, q.items[k]? = some item →
      (q.items.eraseIdx k).Nodup ∧ item ∉ q.items.eraseIdx k := by
    intro k hk
    obtain ⟨hlt, heq⟩ := List.getElem?_eq_some_iff.mp hk
    refine ⟨hn.sublist (eraseIdx_sublist _ _), fun hmem => ?_⟩
    obtain ⟨j, hj, hne, hget⟩ := mem_eraseIdx_iff_getElem.mp hmem
    exact hne ((getElem_inj hn).mp (hget.trans heq.symm))
  unfold get? at hget
  unfold delete
  split
  · rename_i hpos
    rw [hpos, Nat.add_sub_cancel_left, Nat.mod_self] at hget
    have := herase 0 hget
    rwa [eraseIdx_zero] at this
  · exact herase _ hget

theorem take_nodup (hkey : ∀ x ∈ q.items, key x ≠ 0) (hn : q.items.Nodup) : ∀ (fuel : ℕ) (pos : Option ℕ),
    (take size test key (fun _ => none) fuel pos q).1.items.Nodup ∧
      ∀ x ∈ (take size test key (fun _ => none) fuel pos q).1.items,
        key x = (take size test key (fun _ => none) fuel pos q).2 →
          ∃ y ∈ q.items, y ≠ x ∧ key y = key x
  | 0, _ => ⟨hn, fun x hx h0 => absurd h0 (hkey x hx)⟩
  | _ + 1, none => ⟨hn, fun x hx h0 => absurd h0 (hkey x hx)⟩
  | fuel + 1, some pos => by
    unfold take
    cases hget : q.get? size pos with
    | none => exact ⟨hn, fun x hx h0 => absurd h0 (hkey x hx)⟩
    | some item =>
      have hitem : item ∈ q.items := get?_mem hget
      dsimp only
      split
      · rw [if_pos (hkey item hitem)]
        obtain ⟨hnodup, hgone⟩ := delete_nodup hn hget
        refine ⟨hnodup, fun x hx heq => ⟨item, hitem, ?_, heq.symm⟩⟩
        rintro rfl
        exact hgone hx
      · exact take_nodup hkey hn fuel _

theorem take_first_none (h : q.Ok size) (hkey : ∀ x ∈ q.items, test x = true → key x ≠ 0) (hnone :
    (take size test key use size q.first q).2 = 0) :
    (take size test key use size q.first q).1 = q ∧ ∀ x ∈ q.items, test x = false := by
  unfold first at hnone ⊢
  by_cases hempty : q.items = []
  · rw [if_pos hempty, hempty]
    refine ⟨?_, nofun⟩
    cases size with
    | zero => rfl
    | succ n => rfl
  · have hfront : (q.front + 0) % size = q.front := Nat.mod_eq_of_lt h.front
    rw [if_neg hempty, ← hfront] at hnone ⊢
    have hl := h.length
    exact take_none h hkey size 0 (length_pos_iff.mpr hempty) (by omega) hnone

theorem take_stop (fuel : ℕ) : take size test key use fuel none q = (q, 0) := by
  cases fuel with
  | zero => rfl
  | succ fuel => rfl

theorem advance_deleted (h : q.Ok size) {x y : α} {rest : List α} (hitems : q.items = x :: y :: rest) :
    (q.delete size q.front).advance size q.front =
      if size ≤ q.front + q.items.length then none else (q.delete size q.front).first := by
  have hf := h.front
  have hl := h.length
  have hdelete : q.delete size q.front = { items := y :: rest, front := (q.front + 1) % size } := by
    unfold delete
    rw [if_pos rfl, hitems]
    rfl
  rw [hitems] at hl ⊢
  rw [hdelete]
  unfold advance first next
  simp only [length_cons] at hl ⊢
  simp only [reduceCtorEq, if_false]
  by_cases hlast : q.front + 1 < size
  · simp only [Nat.mod_eq_of_lt hlast]
    by_cases hlinear : q.front + 1 + (rest.length + 1) < size
    · simp only [Nat.mod_eq_of_lt hlinear]
      rw [if_pos (by omega), if_pos (by omega), if_neg (by omega)]
    · simp only [mod_wrapped (by omega : size ≤ q.front + 1 + (rest.length + 1)) (by omega)]
      rw [if_neg (by omega), if_pos hlast, if_neg (by omega), if_pos (by omega)]
  · have heq : q.front + 1 = size := by omega
    simp only [heq, Nat.mod_self, Nat.zero_add, Nat.mod_eq_of_lt (by omega : rest.length + 1 < size)]
    rw [if_pos (by omega), if_neg (by omega), if_pos (by omega)]

/-- **A search that accepts all**, of a queue of keys, finds none if all keys are `0`, or if the first one is and the
queue goes round the end of its array. It loses no other key. -/
theorem take_zeros {test : ℕ → Bool} : ∀ (fuel : ℕ) (q : Queue ℕ), q.Ok size → (∀ x ∈ q.items, test x = true) →
    q.items.length ≤ fuel →
      ((take size test id (fun _ => none) fuel q.first q).2 = 0 ↔
        (∀ x ∈ q.items, x = 0) ∨ (q.items.head? = some 0 ∧ size ≤ q.front + q.items.length)) ∧
      ((take size test id (fun _ => none) fuel q.first q).2 = 0 →
        ∀ x ∈ q.items, x ≠ 0 → x ∈ (take size test id (fun _ => none) fuel q.first q).1.items)
  | fuel, ⟨[], front⟩, _, _, _ => by
    have hfirst : (⟨[], front⟩ : Queue ℕ).first = none := rfl
    rw [hfirst, take_stop]
    exact ⟨⟨fun _ => .inl nofun, fun _ => rfl⟩, fun _ _ hx _ => hx⟩
  | 0, ⟨x :: rest, front⟩, _, _, hfuel => absurd hfuel (Nat.not_succ_le_zero _)
  | fuel + 1, ⟨x :: rest, front⟩, h, hall, hfuel => by
    have hfirst : (⟨x :: rest, front⟩ : Queue ℕ).first = some front := rfl
    have hget : (⟨x :: rest, front⟩ : Queue ℕ).get? size front = some x := by
      have hpos := get?_pos (k := 0) h (Nat.succ_pos _)
      rwa [Nat.add_zero, Nat.mod_eq_of_lt h.front] at hpos
    rw [hfirst]
    unfold take
    rw [hget]
    dsimp only [id]
    rw [if_pos (hall x mem_cons_self)]
    by_cases hx : x = 0
    swap
    · rw [if_pos hx]
      refine ⟨iff_of_false hx ?_, fun h0 => absurd h0 hx⟩
      rintro (hzero | ⟨hzero, -⟩)
      · exact hx (hzero x mem_cons_self)
      · exact hx (Option.some.inj hzero)
    subst hx
    have hdelete : (⟨0 :: rest, front⟩ : Queue ℕ).delete size front = ⟨rest, (front + 1) % size⟩ := if_pos rfl
    have hok : (⟨rest, (front + 1) % size⟩ : Queue ℕ).Ok size := hdelete ▸ h.delete front
    cases rest with
    | nil =>
      have hadvance : (⟨[], (front + 1) % size⟩ : Queue ℕ).advance size front = none := rfl
      rw [hdelete, hadvance, take_stop]
      exact ⟨⟨fun _ => .inl fun y hy => mem_singleton.mp hy, fun _ => rfl⟩,
        fun _ y hy hne => absurd (mem_singleton.mp hy) hne⟩
    | cons y rest =>
      have hadvance := advance_deleted h rfl
      rw [hadvance, hdelete]
      by_cases hwrap : size ≤ front + (0 :: y :: rest).length
      · rw [if_pos hwrap, take_stop]
        exact ⟨iff_of_true rfl (.inr ⟨rfl, hwrap⟩), fun _ z hz hne => (mem_cons.mp hz).resolve_left hne⟩
      · rw [if_neg hwrap]
        obtain ⟨hiff, hkeep⟩ := take_zeros fuel ⟨y :: rest, (front + 1) % size⟩ hok
          (fun z hz => hall z (mem_cons_of_mem 0 hz)) (Nat.le_of_succ_le_succ hfuel)
        refine ⟨hiff.trans ?_, fun h0 z hz hne => hkeep h0 z ((mem_cons.mp hz).resolve_left hne) hne⟩
        have hlinear : ¬size ≤ (front + 1) % size + (y :: rest).length := by
          have hmod := Nat.mod_le (front + 1) size
          simp only [length_cons] at hwrap ⊢
          omega
        have hrest : (∀ z ∈ (0 :: y :: rest : List ℕ), z = 0) ↔ ∀ z ∈ (y :: rest : List ℕ), z = 0 := by simp
        rw [hrest]
        exact or_congr Iff.rfl (iff_of_false (fun hc => hlinear hc.2) fun hc => hwrap hc.2)

end Take

/-! ## Weights -/

section Weights

def weight (g : α → ℕ) (q : Queue α) : ℕ := (q.items.map g).sum

variable {g : α → ℕ}

theorem enqueue_weight {item : α} {q' : Queue α} (h : q.enqueue size item = some q') :
    q'.weight g = q.weight g + g item := by
  unfold enqueue at h
  split at h
  · obtain rfl := Option.some.inj h
    simp [weight]
  · cases h

theorem filter_weight (p : α → Bool) : ∀ l : List α, ((l.filter p).map g).sum ≤ (l.map g).sum
  | [] => Nat.le_refl _
  | x :: rest => by
    have hrest := filter_weight p rest
    rw [filter_cons, map_cons, sum_cons]
    split
    · rw [map_cons, sum_cons]
      omega
    · omega

theorem remove_weight (isKey : α → Bool) : (q.remove size isKey).weight g ≤ q.weight g := filter_weight _ _

theorem afterUse_weight {item : α} (hget : q.get? size pos = some item) :
    (q.afterUse size use pos item).weight g + g item = q.weight g + ((use item).map g).getD 0 := by
  obtain ⟨hlt, heq⟩ := List.getElem?_eq_some_iff.mp hget
  have herase : ((q.items.eraseIdx ((pos + size - q.front) % size)).map g).sum + g item = q.weight g := by
    have hperm := (getElem_cons_eraseIdx_perm hlt).map g
    rw [heq, map_cons] at hperm
    rw [weight, ← hperm.sum_eq, sum_cons, Nat.add_comm]
  unfold afterUse
  cases huse : use item with
  | none =>
    dsimp only [Option.map_none, Option.getD_none]
    unfold delete
    split
    · rename_i hpos
      rw [hpos, Nat.add_sub_cancel_left, Nat.mod_self, eraseIdx_zero] at herase
      exact herase
    · exact herase
  | some item' =>
    have hput : (q.put size pos item').weight g = g item' +
        ((q.items.eraseIdx ((pos + size - q.front) % size)).map g).sum := by
      have hperm := (set_perm_cons_eraseIdx hlt item').map g
      exact hperm.sum_eq.trans sum_cons
    dsimp only [Option.map_some, Option.getD_some]
    omega

theorem take_weight {k : ℕ} (hk : k ≠ 0) (huse : ∀ x, test x = true →
    ((use x).map g).getD 0 + (if key x = k then 1 else 0) ≤ g x) : ∀ (fuel : ℕ) (pos : Option ℕ) (q : Queue α),
      (take size test key use fuel pos q).1.weight g + (if (take size test key use fuel pos q).2 = k then 1 else 0) ≤
        q.weight g
  | 0, _, q => by
    unfold take
    rw [if_neg hk.symm]
    exact Nat.le_refl _
  | _ + 1, none, q => by
    unfold take
    rw [if_neg hk.symm]
    exact Nat.le_refl _
  | fuel + 1, some pos, q => by
    unfold take
    cases hget : q.get? size pos with
    | none =>
      rw [if_neg hk.symm]
      exact Nat.le_refl _
    | some item =>
      by_cases htest : test item = true
      · have hleft := huse item htest
        have hafter : (q.afterUse size use pos item).weight g + g item = q.weight g + ((use item).map g).getD 0 :=
          afterUse_weight hget
        have hrest := take_weight hk huse fuel ((q.afterUse size use pos item).advance size pos)
          (q.afterUse size use pos item)
        simp only [if_pos htest]
        by_cases hkey : key item = 0
        · simp only [if_neg (not_not.mpr hkey)]
          refine Nat.le_trans hrest ?_
          omega
        · simp only [if_pos hkey]
          show (q.afterUse size use pos item).weight g + (if key item = k then 1 else 0) ≤ q.weight g
          omega
      · simp only [if_neg htest]
        exact take_weight hk huse fuel _ q

end Weights

end Dlb.Queue

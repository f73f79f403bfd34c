import Dlb.Support.GTreeSpec

/-!
# Subprocess descriptors

`spd.c` keeps the registered descriptors in a tree, by their addresses, each with the thread that `spd_set_pthread`
assigns to it. `spd_get_spds` writes all of them in an array of as many positions as the tree counts nodes, and one.
-/

namespace Dlb.Kernel

open Function List Lib

/-- `spd_info_t`, with an address and a thread id for its pointer and `pthread_t`. -/
structure SpdInfo where
  spd : ℕ
  pthread : ℕ := 0

/-- `spd_tree`, `NULL` before the first registration. -/
abbrev SpdTree := Option (GTree ℕ SpdInfo)

inductive SpdCall where
  | register (spd : ℕ)
  | unregister (spd : ℕ)
  | setPthread (spd pthread : ℕ)

namespace SpdTree

/-- `spd_register`, `spd_unregister` and `spd_set_pthread`. The info of a descriptor is changed in place, like an
insertion changes the value of a key that is there; `none` is an access through `NULL`. -/
def exec (tree : SpdTree) : SpdCall → Option SpdTree
  | .register spd => some (some ((tree.getD {}).insert spd { spd }))
  | .unregister spd => some (tree.map fun t => (t.remove spd).2)
  | .setPthread spd pthread =>
    match tree with
    | none => none
    | some t => (t.lookup spd).map fun info => some (t.insert spd { info with pthread })

/-- `spd_get_pthread`; `none` is an access through `NULL`. -/
def spdGetPthread (tree : SpdTree) (spd : ℕ) : Option ℕ := (tree.bind (·.lookup spd)).map (·.pthread)

/-- `spd_get_spds`: the addresses before the `NULL` at the end. The result is `none` if the traversal does not end in so
many turns, or writes behind the array. -/
def spdGetSpds (turns : ℕ) (tree : SpdTree) : Option (List ℕ) :=
  let t := tree.getD {}
  match t.foreach turns (fun spd _ list => (false, list ++ [spd])) [] with
  | none => none
  | some list => if list.length + 1 ≤ t.nnodes + 1 then some list else none

end SpdTree

/-- What the calls do to the threads of the registered descriptors. -/
def SpdCall.apply (m : ℕ → Option ℕ) : SpdCall → Option (ℕ → Option ℕ)
  | .register spd => some (update m spd (some 0))
  | .unregister spd => some (update m spd none)
  | .setPthread spd pthread => (m spd).map fun _ => update m spd (some pthread)

def infos (m : ℕ → Option ℕ) (spd : ℕ) : Option SpdInfo := (m spd).map (⟨spd, ·⟩)

theorem infos_update (m : ℕ → Option ℕ) (spd : ℕ) (pthread : Option ℕ) :
    infos (update m spd pthread) = update (infos m) spd (pthread.map (⟨spd, ·⟩)) := by
  funext x
  by_cases hx : x = spd
  · subst hx; simp [infos]
  · simp [infos, hx]

/-- The tree holds the infos, where `NULL` is as good as an empty tree. -/
def Registry (tree : SpdTree) (m : ℕ → Option ℕ) : Prop := (tree.getD {}).Refines (infos m)

variable {tree : SpdTree} {m : ℕ → Option ℕ}

theorem Registry.lookup (h : Registry tree m) (spd : ℕ) : tree.bind (·.lookup spd) = infos m spd := by
  have hlookup : (tree.getD {}).lookup spd = infos m spd := GTreeNode.lookup_eq h.sound h.entries spd
  cases tree with
  | none => rw [← hlookup]; rfl
  | some t => exact hlookup

theorem Registry.exec (h : Registry tree m) (call : SpdCall) :
    (tree.exec call = none ∧ call.apply m = none) ∨
      ∃ tree' m', tree.exec call = some tree' ∧ call.apply m = some m' ∧ Registry tree' m' := by
  unfold Registry
  cases call with
  | register spd =>
    refine .inr ⟨_, _, rfl, rfl, ?_⟩
    rw [infos_update]
    exact h.next (.insert spd { spd })
  | unregister spd =>
    refine .inr ⟨_, _, rfl, rfl, ?_⟩
    rw [infos_update]
    cases tree with
    | none => exact h.next (.remove spd)
    | some t => exact h.next (.remove spd)
  | setPthread spd pthread =>
    have hlookup := h.lookup spd
    cases hm : m spd with
    | none =>
      left
      rw [infos, hm] at hlookup
      refine ⟨?_, by rw [SpdCall.apply, hm]; rfl⟩
      cases tree with
      | none => rfl
      | some t => rw [SpdTree.exec, show t.lookup spd = none from hlookup]; rfl
    | some old =>
      rw [infos, hm] at hlookup
      cases tree with
      | none => cases hlookup
      | some t =>
        refine .inr ⟨some (t.insert spd ⟨spd, pthread⟩), update m spd (some pthread), ?_, by rw [SpdCall.apply, hm]; rfl, ?_⟩
        · rw [SpdTree.exec, show t.lookup spd = some ⟨spd, old⟩ from hlookup]; rfl
        · rw [infos_update]
          exact h.next (.insert spd ⟨spd, pthread⟩)

theorem foldUntil_keys (l : List (ℕ × SpdInfo)) (list : List ℕ) :
    GTreeNode.foldUntil (fun spd _ list => (false, list ++ [spd])) l list = list ++ l.map Prod.fst := by
  induction l generalizing list with
  | nil => simp [GTreeNode.foldUntil]
  | cons e l ih => simp [GTreeNode.foldUntil, ih]

theorem Registry.spdGetSpds (h : Registry tree m) :
    ∃ l : List ℕ, l.Pairwise (· < ·) ∧ (∀ spd, spd ∈ l ↔ (m spd).isSome) ∧
      (l.length < 2 ^ 31 → ∀ turns ≥ l.length, tree.spdGetSpds turns = some l) := by
  refine ⟨(tree.getD {}).root.toList.map Prod.fst, pairwise_map.mpr h.entries.sorted, fun spd => ?_, fun hlt turns hturns => ?_⟩
  · have hinfo : (m spd).isSome ↔ ∃ info, infos m spd = some info := by
      rw [← Option.isSome_iff_exists, infos, Option.isSome_map]
    simp only [hinfo, ← h.entries.mem_iff, mem_map, Prod.exists, exists_and_right, exists_eq_right]
  · rw [length_map] at hlt hturns
    have hlist := GTreeNode.foreachFrom_eq h.sound h.entries.sorted (fun spd _ list => (false, list ++ [spd])) [] rfl
      hturns []
    rw [foldUntil_keys, nil_append, ← GTreeNode.first_eq] at hlist
    unfold SpdTree.spdGetSpds GTree.foreach
    dsimp only
    rw [hlist, h.nnodes, Nat.mod_eq_of_lt (hlt.trans (by decide))]
    exact if_pos (by rw [length_map])

/-- **The registry.** Any calls fail exactly when they set the thread of a descriptor that is not registered. Else the tree
has the threads of those that are, and lists these in the order of their addresses, within the array. -/
theorem registry_right (calls : List SpdCall) :
    match calls.foldlM SpdTree.exec none, calls.foldlM SpdCall.apply fun _ => none with
    | some tree, some m => (∀ spd, tree.spdGetPthread spd = m spd) ∧ ∃ l : List ℕ, l.Pairwise (· < ·) ∧
        (∀ spd, spd ∈ l ↔ (m spd).isSome) ∧ (l.length < 2 ^ 31 → ∀ turns ≥ l.length, tree.spdGetSpds turns = some l)
    | none, none => True
    | _, _ => False := by
  have hstart : Registry none fun _ => none := ⟨rfl, Entries.nil, rfl⟩
  generalize (none : SpdTree) = tree at hstart ⊢
  generalize (fun _ => none : ℕ → Option ℕ) = m at hstart ⊢
  induction calls generalizing tree m with
  | nil =>
    refine ⟨fun spd => ?_, hstart.spdGetSpds⟩
    rw [SpdTree.spdGetPthread, hstart.lookup, infos]
    cases m spd <;> rfl
  | cons call calls ih =>
    rw [foldlM_cons, foldlM_cons]
    rcases hstart.exec call with ⟨hexec, happly⟩ | ⟨tree', m', hexec, happly, hnext⟩
    · rw [hexec, happly]; trivial
    · rw [hexec, happly]
      exact ih tree' m' hnext

end Dlb.Kernel

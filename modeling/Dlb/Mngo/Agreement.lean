import Dlb.Mngo.Rounds

/-!
# The managers agree

The managers have the same barriers before them: all of them, if they do not differ in a state that they load, and else
those of the exchange of data, which follow the barrier of the node. So nobody writes while another one reads.

* `step_exchange`: what a manager can do with the data that is exchanged;
* `Together`: the invariant of runs, with what each manager knows (`Reads`).
-/

namespace Dlb.Mngo

open List Function

namespace Node

variable {ι : Type*} [Fintype ι] {n : Node ι} {i j : ι} {k : ℕ} {l : List (ℕ × Mark)}

/-! ## One step -/

variable {m m' : Manager} {info info' : ℕ → ManagerInfo} {p p' : Point}

omit [Fintype ι] in
theorem closing_cons : n.closing i k l = if n.drom ∧ n.setprocessmask i k = .success then
    (k, .point .load) :: (k, .point .final) :: l else (k, .point .final) :: l := by
  unfold closing
  split
  · rfl
  · rfl

theorem marks_pass (h : m.pc = .wait p) : n.marks i m = (m.call, .point p) :: n.marks i (n.pass i m p) := by
  obtain ⟨call, pc, active, waits, actions, deltas⟩ := m
  obtain rfl : pc = .wait p := h
  cases p with
  | deltasRead =>
    unfold pass
    dsimp only
    split
    · rfl
    · rfl
  | _ => rfl

theorem pass_loose (hnode : n.nodeBarrier = true) (hp : p.loose = true) :
    ∀ x ∈ (view true (n.marks i (n.pass i m p))).head?, x.2 = .node := by
  cases p with
  | load =>
    show ∀ x ∈ (view true ((m.call, .point .final) :: n.later i (m.call + 1))).head?, x.2 = .node
    exact later_node hnode
  | final => exact later_node hnode
  | _ => exact nomatch hp

/-- **The barrier.** Two managers that wait, and have the same barriers before them, have the same ones when they are let
go, and if they exchange data they are at the same point. -/
theorem pass_views {skip : Bool} (hskip : skip = true → n.nodeBarrier = true) (hm : m.pc = .wait p)
    (hm' : m'.pc = .wait p') (h : view skip (n.marks i m) = view skip (n.marks j m')) :
    view skip (n.marks i (n.pass i m p)) = view skip (n.marks j (n.pass j m' p')) ∧
      (skip = false ∨ p.loose = false → p' = p ∧ m'.call = m.call) := by
  rw [marks_pass hm, marks_pass hm'] at h
  have hsame : (m.call, Mark.point p) = (m'.call, Mark.point p') → p' = p ∧ m'.call = m.call := fun he =>
    ⟨(Mark.point.inj (Prod.mk.inj he).2).symm, (Prod.mk.inj he).1.symm⟩
  cases skip with
  | false =>
    obtain ⟨hhead, htail⟩ := cons.inj h
    exact ⟨htail, fun _ => hsame hhead⟩
  | true =>
    have hnode := hskip rfl
    have hstrict : ∀ {k : ℕ} {q : Point} {b}, q.loose = b → Mark.strict (k, .point q) = !b := fun hq => by
      rw [← hq]
      rfl
    cases hp : p.loose with
    | false =>
      cases hp' : p'.loose with
      | false =>
        rw [view_strict (hstrict hp), view_strict (hstrict hp')] at h
        obtain ⟨hhead, htail⟩ := cons.inj h
        exact ⟨htail, fun _ => hsame hhead⟩
      | true =>
        -- behind a loose barrier the next strict one is the barrier of the node
        rw [view_strict (hstrict hp), view_loose (hstrict hp')] at h
        have hfirst : Mark.point p = .node := pass_loose hnode hp' (m.call, .point p) (by rw [← h]; rfl)
        exact nomatch hfirst
    | true =>
      cases hp' : p'.loose with
      | false =>
        rw [view_loose (hstrict hp), view_strict (hstrict hp')] at h
        have hfirst : Mark.point p' = .node := pass_loose hnode hp (m'.call, .point p') (by rw [h]; rfl)
        exact nomatch hfirst
      | true =>
        rw [view_loose (hstrict hp), view_loose (hstrict hp')] at h
        exact ⟨h, fun ho => ho.elim nofun nofun⟩

theorem decided_ne {skip : Bool} (hskip : skip = true → n.nodeBarrier = true) {k' : ℕ} :
    view skip (n.decided i k (n.later i (k + 1))) ≠ (k', .point .actions) :: l := by
  intro h
  unfold decided at h
  split at h
  · have hcons : ∀ l', view skip ((Point.chain .deltas).map (fun point => (k, Mark.point point)) ++ l') =
        (k, .point .deltas) :: view skip ((Point.chain .deltasRead).map (fun point => (k, Mark.point point)) ++ l') :=
      fun l' => view_strict rfl
    rw [hcons] at h
    exact nomatch (Prod.mk.inj (cons.inj h).1).2
  · cases skip with
    | false =>
      have h : n.closing i k (n.later i (k + 1)) = (k', .point .actions) :: l := h
      rw [closing_cons] at h
      split at h
      · exact nomatch (Prod.mk.inj (cons.inj h).1).2
      · exact nomatch (Prod.mk.inj (cons.inj h).1).2
    | true =>
      rw [nil_append, closing_view] at h
      have hfirst : Mark.point .actions = .node := later_node (hskip rfl) (k', .point .actions) (by rw [h]; rfl)
      exact nomatch hfirst

/-- **One manager.** What it does between two barriers does not change the barriers that are still to come, if the
actions that it has read have the right maximum. -/
theorem step_marks (hv : n.Valid m)
    (hread : ∀ id result, m.pc = .readActions id result → n.maxAttached ≤ id → result = n.agreed m.call)
    (h : n.step i m info = some (m', info')) : n.marks i m' = n.marks i m ∧ n.Valid m' := by
  obtain ⟨call, pc, active, waits, actions, deltas⟩ := m
  unfold step at h
  cases pc with
  | ready =>
    have hactive : active = n.activeAt call := hv
    cases hcall : n.calls[call]? with
    | none =>
      rw [hcall] at h
      exact nomatch h
    | some c =>
      have hlt : call < n.calls.length := (List.getElem?_eq_some_iff.mp hcall).1
      have hlater := later_of_lt (n := n) (i := i) hlt
      unfold callMarks at hlater
      rw [hcall] at h hlater
      cases c with
      | start name =>
        dsimp only at h hlater
        have htop : (Manager.checkTop ⟨call, .ready, active, waits, actions, deltas⟩ name = true) ↔
            (n.activeAt call).head? = some name := by
          rw [← hactive]
          exact decide_eq_true_iff
        have hnext : n.activeAt (call + 1) = if (n.activeAt call).head? = some name then n.activeAt call
            else name :: n.activeAt call := by
          rw [activeAt, hcall]
        split at h
        · rename_i hcheck
          rw [if_pos (htop.mp hcheck)] at hlater hnext
          obtain ⟨rfl, rfl⟩ := Prod.mk.inj (Option.some.inj h)
          exact ⟨hlater.symm, hactive.trans hnext.symm⟩
        · rename_i hcheck
          rw [if_neg fun ht => hcheck (htop.mpr ht)] at hlater hnext
          obtain ⟨rfl, rfl⟩ := Prod.mk.inj (Option.some.inj h)
          refine ⟨hlater.symm, ?_⟩
          show name :: active = n.activeAt (call + 1)
          rw [hnext, hactive]
      | stop name =>
        obtain ⟨rfl, rfl⟩ := Prod.mk.inj (Option.some.inj h)
        cases hnode : n.nodeBarrier with
        | true =>
          rw [if_pos hnode] at hlater
          exact ⟨hlater.symm, hactive, name, hcall⟩
        | false =>
          rw [if_neg (Bool.eq_false_iff.mp hnode)] at hlater
          exact ⟨hlater.symm, hactive, name, hcall⟩
  | managerEnd =>
    obtain ⟨hactive, name, hcall⟩ : active = n.activeAt call ∧ ∃ name, n.calls[call]? = some (.stop name) := hv
    have hending : n.ending i call (n.later i (call + 1)) = if (n.activeAt call).head? = some name then
        (call, .point .actions) :: n.decided i call (n.later i (call + 1)) else n.later i (call + 1) := by
      unfold ending
      rw [hcall]
    have hnext : n.activeAt (call + 1) = if (n.activeAt call).head? = some name then (n.activeAt call).tail
        else n.activeAt call := by
      rw [activeAt, hcall]
    have htop : (Manager.checkTop ⟨call, .managerEnd, active, waits, actions, deltas⟩ name = true) ↔
        (n.activeAt call).head? = some name := by
      rw [← hactive]
      exact decide_eq_true_iff
    rw [hcall] at h
    dsimp only at h
    split at h
    · rename_i hcheck
      have hhead := htop.mp hcheck
      rw [if_pos hhead] at hending
      obtain ⟨rfl, rfl⟩ := Prod.mk.inj (Option.some.inj h)
      exact ⟨hending.symm, hactive, name, hcall, hhead⟩
    · rename_i hcheck
      rw [if_neg fun ht => hcheck (htop.mpr ht)] at hending hnext
      obtain ⟨rfl, rfl⟩ := Prod.mk.inj (Option.some.inj h)
      exact ⟨hending.symm, hactive.trans hnext.symm⟩
  | readActions id result =>
    obtain ⟨hactive, name, hcall, hhead⟩ : Valid.Exchanging n ⟨call, .readActions id result, active, waits, actions, deltas⟩ :=
      hv
    dsimp only at h
    split at h
    · obtain ⟨rfl, rfl⟩ := Prod.mk.inj (Option.some.inj h)
      exact ⟨rfl, hactive, name, hcall, hhead⟩
    · rename_i hid
      have hagreed : result = n.agreed call := hread id result rfl (Nat.le_of_not_lt hid)
      split at h
      · rename_i hdrom
        obtain ⟨rfl, rfl⟩ := Prod.mk.inj (Option.some.inj h)
        refine ⟨?_, hactive, name, hcall, hhead⟩
        show _ = n.decided i call (n.later i (call + 1))
        unfold decided
        rw [if_pos (hagreed ▸ hdrom)]
        rfl
      · rename_i hdrom
        obtain ⟨rfl, rfl⟩ := Prod.mk.inj (Option.some.inj h)
        refine ⟨?_, ?_⟩
        · show _ = n.decided i call (n.later i (call + 1))
          unfold decided
          rw [if_neg fun he => hdrom (hagreed.trans he)]
          rfl
        · show active.tail = n.activeAt (call + 1)
          rw [activeAt, hcall]
          dsimp only
          rw [if_pos hhead]
          exact congrArg tail hactive
  | balance =>
    obtain ⟨rfl, rfl⟩ := Prod.mk.inj (Option.some.inj h)
    exact ⟨rfl, hv⟩
  | readDeltas id cpuDeltas =>
    dsimp only at h
    split at h
    · obtain ⟨rfl, rfl⟩ := Prod.mk.inj (Option.some.inj h)
      exact ⟨rfl, hv⟩
    · obtain ⟨rfl, rfl⟩ := Prod.mk.inj (Option.some.inj h)
      exact ⟨rfl, hv⟩
  | clear id =>
    dsimp only at h
    split at h
    · obtain ⟨rfl, rfl⟩ := Prod.mk.inj (Option.some.inj h)
      exact ⟨rfl, hv⟩
    · obtain ⟨rfl, rfl⟩ := Prod.mk.inj (Option.some.inj h)
      exact ⟨rfl, hv⟩
  | load =>
    have hclosing := closing_cons (n := n) (i := i) (k := call) (l := n.later i (call + 1))
    dsimp only at h
    split at h
    · rename_i hload
      rw [if_pos hload] at hclosing
      obtain ⟨rfl, rfl⟩ := Prod.mk.inj (Option.some.inj h)
      exact ⟨hclosing.symm, hv⟩
    · rename_i hload
      rw [if_neg hload] at hclosing
      obtain ⟨rfl, rfl⟩ := Prod.mk.inj (Option.some.inj h)
      exact ⟨hclosing.symm, trivial, hv⟩
  | arrive point =>
    obtain ⟨rfl, rfl⟩ := Prod.mk.inj (Option.some.inj h)
    exact ⟨rfl, hv.2⟩
  | nodeBarrier => exact nomatch h
  | wait point => exact nomatch h

/-- What a manager can do with the data that is exchanged. -/
inductive Exchange (n : Node ι) (i : ι) (m : Manager) (info : ℕ → ManagerInfo) : Manager → (ℕ → ManagerInfo) → Prop
  | quiet {m' : Manager} (hpc : Quiet m'.pc) (hactions : m'.actions = m.actions) (hdeltas : m'.deltas = m.deltas)
      (hwaits : m'.waits = m.waits) : Exchange n i m info m' info
  | writeAction : Exchange n i m info (m.goto (.wait .actions))
      (update info (n.mid i) { info (n.mid i) with actions := n.action i m.call })
  | readAction {id : ℕ} {result : MngoActions} (hpc : m.pc = .readActions id result) (hid : id < n.maxAttached) :
    Exchange n i m info
      (m.goto (.readActions (id + 1) (if (info id).pid = 0 then result else max result (info id).actions))) info
  | actions {m' : Manager} {id : ℕ} {result : MngoActions} (hpc : m.pc = .readActions id result)
      (hid : n.maxAttached ≤ id) (hpc' : Quiet m'.pc) (hactions : m'.actions = m.actions ++ [(m.call, result)])
      (hdeltas : m'.deltas = m.deltas) (hwaits : m'.waits = m.waits) : Exchange n i m info m' info
  | writeDelta : Exchange n i m info (m.goto (.wait .deltas))
      (update info (n.mid i) { info (n.mid i) with dromCoreChange := n.delta i m.call })
  | readDelta {id : ℕ} {cpuDeltas : List ℤ} (hpc : m.pc = .readDeltas id cpuDeltas) (hid : id < n.maxAttached) :
    Exchange n i m info
      (m.goto (.readDeltas (id + 1) (cpuDeltas ++ [if (info id).pid = 0 then 0 else (info id).dromCoreChange]))) info
  | deltas {m' : Manager} {id : ℕ} {cpuDeltas : List ℤ} (hpc : m.pc = .readDeltas id cpuDeltas)
      (hid : n.maxAttached ≤ id) (hpc' : Quiet m'.pc) (hactions : m'.actions = m.actions)
      (hdeltas : m'.deltas = m.deltas ++ [(m.call, cpuDeltas)]) (hwaits : m'.waits = m.waits) :
    Exchange n i m info m' info
  | clear {id : ℕ} (hpc : m.pc = .clear id) : Exchange n i m info (m.goto (.clear (id + 1)))
      (update info id { info id with dromCoreChange := 0 })

omit [Fintype ι] in
theorem step_exchange (hv : n.Valid m) (h : n.step i m info = some (m', info')) : Exchange n i m info m' info' := by
  unfold step at h
  split at h
  · split at h
    · exact nomatch h
    · split at h
      · obtain ⟨rfl, rfl⟩ := Prod.mk.inj (Option.some.inj h)
        exact .quiet trivial rfl rfl rfl
      · obtain ⟨rfl, rfl⟩ := Prod.mk.inj (Option.some.inj h)
        exact .quiet trivial rfl rfl rfl
    · obtain ⟨rfl, rfl⟩ := Prod.mk.inj (Option.some.inj h)
      refine .quiet ?_ rfl rfl rfl
      show Quiet (if n.nodeBarrier then .nodeBarrier else .managerEnd)
      split
      · trivial
      · trivial
  · split at h
    · split at h
      · obtain ⟨rfl, rfl⟩ := Prod.mk.inj (Option.some.inj h)
        exact .writeAction
      · obtain ⟨rfl, rfl⟩ := Prod.mk.inj (Option.some.inj h)
        exact .quiet trivial rfl rfl rfl
    · exact nomatch h
  · rename_i id result hpc
    split at h
    · rename_i hid
      obtain ⟨rfl, rfl⟩ := Prod.mk.inj (Option.some.inj h)
      exact .readAction hpc hid
    · rename_i hid
      split at h
      · obtain ⟨rfl, rfl⟩ := Prod.mk.inj (Option.some.inj h)
        exact .actions hpc (Nat.le_of_not_lt hid) trivial rfl rfl rfl
      · obtain ⟨rfl, rfl⟩ := Prod.mk.inj (Option.some.inj h)
        exact .actions hpc (Nat.le_of_not_lt hid) trivial rfl rfl rfl
  · obtain ⟨rfl, rfl⟩ := Prod.mk.inj (Option.some.inj h)
    exact .writeDelta
  · rename_i id cpuDeltas hpc
    split at h
    · rename_i hid
      obtain ⟨rfl, rfl⟩ := Prod.mk.inj (Option.some.inj h)
      exact .readDelta hpc hid
    · rename_i hid
      obtain ⟨rfl, rfl⟩ := Prod.mk.inj (Option.some.inj h)
      exact .deltas hpc (Nat.le_of_not_lt hid) trivial rfl rfl rfl
  · rename_i id hpc
    split at h
    · obtain ⟨rfl, rfl⟩ := Prod.mk.inj (Option.some.inj h)
      exact .clear hpc
    · obtain ⟨rfl, rfl⟩ := Prod.mk.inj (Option.some.inj h)
      exact .quiet trivial rfl rfl rfl
  · split at h
    · obtain ⟨rfl, rfl⟩ := Prod.mk.inj (Option.some.inj h)
      exact .quiet trivial rfl rfl rfl
    · obtain ⟨rfl, rfl⟩ := Prod.mk.inj (Option.some.inj h)
      exact .quiet trivial rfl rfl rfl
  · rename_i point hpc
    obtain ⟨rfl, rfl⟩ := Prod.mk.inj (Option.some.inj h)
    unfold Valid at hv
    rw [hpc] at hv
    exact .quiet hv.1 rfl rfl rfl
  · exact nomatch h
  · exact nomatch h

omit [Fintype ι] in
theorem step_waits (hv : n.Valid m) (h : n.step i m info = some (m', info')) : m'.waits = m.waits := by
  cases step_exchange hv h with
  | quiet _ _ _ hwaits => exact hwaits
  | actions _ _ _ _ _ hwaits => exact hwaits
  | deltas _ _ _ _ _ hwaits => exact hwaits
  | _ => rfl

omit [Fintype ι] in
theorem step_none (hv : n.Valid m) (h : n.step i m info = none) :
    (m.pc = .ready ∧ n.calls.length ≤ m.call) ∨ (∃ p, m.pc = .wait p) ∨ m.pc = .nodeBarrier := by
  obtain ⟨call, pc, active, waits, actions, deltas⟩ := m
  unfold step at h
  cases pc with
  | ready =>
    cases hcall : n.calls[call]? with
    | none => exact .inl ⟨rfl, getElem?_eq_none_iff.mp hcall⟩
    | some c =>
      rw [hcall] at h
      cases c with
      | start name =>
        dsimp only at h
        split at h
        · exact nomatch h
        · exact nomatch h
      | stop name => exact nomatch h
  | managerEnd =>
    obtain ⟨-, name, hcall⟩ : active = n.activeAt call ∧ ∃ name, n.calls[call]? = some (.stop name) := hv
    rw [hcall] at h
    dsimp only at h
    split at h
    · exact nomatch h
    · exact nomatch h
  | readActions id result =>
    dsimp only at h
    split at h
    · exact nomatch h
    · split at h
      · exact nomatch h
      · exact nomatch h
  | readDeltas id cpuDeltas =>
    dsimp only at h
    split at h
    · exact nomatch h
    · exact nomatch h
  | clear id =>
    dsimp only at h
    split at h
    · exact nomatch h
    · exact nomatch h
  | load =>
    dsimp only at h
    split at h
    · exact nomatch h
    · exact nomatch h
  | balance | arrive => exact nomatch h
  | nodeBarrier => exact .inr (.inr rfl)
  | wait point => exact .inr (.inl ⟨point, rfl⟩)

omit [Fintype ι] in
theorem pass_valid (hv : n.Valid m) (h : m.pc = .wait p) : n.Valid (n.pass i m p) := by
  obtain ⟨call, pc, active, waits, actions, deltas⟩ := m
  obtain rfl : pc = .wait p := h
  cases p with
  | deltasRead =>
    unfold pass
    dsimp only
    split
    · exact hv
    · exact hv
  | printed =>
    obtain ⟨hactive, name, hcall, hhead⟩ : Valid.Exchanging n ⟨call, .wait .printed, active, waits, actions, deltas⟩ := hv
    show active.tail = n.activeAt (call + 1)
    rw [activeAt, hcall]
    dsimp only
    rw [if_pos hhead]
    exact congrArg tail hactive
  | deltasCleared | redistributed | reported | load => exact ⟨trivial, hv⟩
  | actions | deltas | final => exact hv

/-! ## All managers -/

/-- What a manager knows at each place: who waits with a proposal has written it, and who reads finds the proposals of its
round. -/
structure Reads (n : Node ι) (i : ι) (m : Manager) (info : ℕ → ManagerInfo) : Prop where
  proposed : m.pc = .wait .actions → (info (n.mid i)).actions = n.action i m.call
  offered : m.pc = .wait .deltas → (info (n.mid i)).dromCoreChange = n.delta i m.call
  readActions : ∀ id result, m.pc = .readActions id result → (∀ j, (info (n.mid j)).actions = n.action j m.call) ∧
    result = (Finset.univ.filter fun j => n.mid j < id).sup fun j => n.action j m.call
  readDeltas : ∀ id cpuDeltas, m.pc = .readDeltas id cpuDeltas →
    (∀ j, (info (n.mid j)).dromCoreChange = n.delta j m.call) ∧
      id ≤ n.maxAttached ∧ cpuDeltas = (range id).map (n.change m.call)
  actions : ∀ r ∈ m.actions, r.2 = n.agreed r.1
  deltas : ∀ r ∈ m.deltas, r.2 = (range n.maxAttached).map (n.change r.1)

/-- **The invariant.** The managers have the same barriers before them, all of them or those that are strict. -/
structure Together (n : Node ι) (skip : Bool) (s : Round ι) : Prop where
  views : ∀ i j, view skip (n.marks i (s.manager i)) = view skip (n.marks j (s.manager j))
  valid : ∀ i, n.Valid (s.manager i)
  pids : ∀ id, (s.info id).pid = (n.info id).pid
  reads : ∀ i, Reads n i (s.manager i) s.info

variable {s t : Round ι} {skip : Bool}

theorem Reads.quiet (hq : Quiet m.pc) (hactions : ∀ r ∈ m.actions, r.2 = n.agreed r.1)
    (hdeltas : ∀ r ∈ m.deltas, r.2 = (range n.maxAttached).map (n.change r.1)) : Reads n i m info where
  proposed h := by
    rw [h] at hq
    exact hq.elim
  offered h := by
    rw [h] at hq
    exact hq.elim
  readActions _ _ h := by
    rw [h] at hq
    exact hq.elim
  readDeltas _ _ h := by
    rw [h] at hq
    exact hq.elim
  actions := hactions
  deltas := hdeltas

theorem Reads.frame (h : Reads n i m info)
    (hproposed : m.pc = .wait .actions → (info' (n.mid i)).actions = (info (n.mid i)).actions)
    (hoffered : m.pc = .wait .deltas → (info' (n.mid i)).dromCoreChange = (info (n.mid i)).dromCoreChange)
    (hactions : ∀ id result, m.pc = .readActions id result → ∀ j, (info' (n.mid j)).actions = (info (n.mid j)).actions)
    (hdeltas : ∀ id cpuDeltas, m.pc = .readDeltas id cpuDeltas →
      ∀ j, (info' (n.mid j)).dromCoreChange = (info (n.mid j)).dromCoreChange) : Reads n i m info' where
  proposed hpc := (hproposed hpc).trans (h.proposed hpc)
  offered hpc := (hoffered hpc).trans (h.offered hpc)
  readActions id result hpc :=
    ⟨fun j => (hactions id result hpc j).trans ((h.readActions id result hpc).1 j), (h.readActions id result hpc).2⟩
  readDeltas id cpuDeltas hpc :=
    ⟨fun j => (hdeltas id cpuDeltas hpc j).trans ((h.readDeltas id cpuDeltas hpc).1 j), (h.readDeltas id cpuDeltas hpc).2⟩
  actions := h.actions
  deltas := h.deltas

theorem marks_readActions {id : ℕ} {result : MngoActions} (h : m.pc = .readActions id result) :
    n.marks i m = n.decided i m.call (n.later i (m.call + 1)) := by
  unfold marks
  rw [h]

theorem marks_readDeltas {id : ℕ} {cpuDeltas : List ℤ} (h : m.pc = .readDeltas id cpuDeltas) :
    ∃ l, n.marks i m = (m.call, .point .deltasRead) :: l := by
  unfold marks
  rw [h]
  exact ⟨_, rfl⟩

theorem marks_clear {id : ℕ} (h : m.pc = .clear id) : ∃ l, n.marks i m = (m.call, .point .deltasCleared) :: l := by
  unfold marks
  rw [h]
  exact ⟨_, rfl⟩

theorem marks_wait (h : m.pc = .wait p) : ∃ l, n.marks i m = (m.call, .point p) :: l := ⟨_, marks_pass h⟩

theorem Together.start (hskip : skip = false → n.SameLoads) : Together n skip n.start where
  views := fun _ _ => later_view hskip
  valid := fun _ => rfl
  pids := fun _ => rfl
  reads := fun _ => .quiet trivial nofun nofun

theorem Together.agree (h : Together n skip s) : n.Agree s := fun i => ⟨(h.reads i).actions, (h.reads i).deltas⟩

theorem Together.strict (h : Together n skip s) {x y : ℕ × Mark} {l l' : List (ℕ × Mark)}
    (hi : n.marks i (s.manager i) = x :: l) (hj : n.marks j (s.manager j) = y :: l') (hx : Mark.strict x = true)
    (hy : Mark.strict y = true) : x = y := by
  have hviews := h.views i j
  rw [hi, hj, view_strict hx, view_strict hy] at hviews
  exact (cons.inj hviews).1

theorem sup_succ {id : ℕ} (hid : id < n.maxAttached) {info : ManagerInfo} (hpid : info.pid = (n.info id).pid)
    (hinfo : ∀ j, n.mid j = id → info.actions = n.action j k) :
    (if info.pid = 0 then (Finset.univ.filter fun j => n.mid j < id).sup fun j => n.action j k
      else max ((Finset.univ.filter fun j => n.mid j < id).sup fun j => n.action j k) info.actions) =
      (Finset.univ.filter fun j => n.mid j < id + 1).sup fun j => n.action j k := by
  classical
  split
  · rename_i h0
    have hsame : (Finset.univ.filter fun j => n.mid j < id + 1) = Finset.univ.filter fun j => n.mid j < id := by
      refine Finset.filter_congr fun j _ => ?_
      have hne : n.mid j ≠ id := fun he => n.registered j (by rw [he, ← hpid, h0])
      omega
    rw [hsame]
  · rename_i h0
    obtain ⟨j, hj⟩ := n.free id hid (hpid ▸ h0)
    have hinsert : (Finset.univ.filter fun j => n.mid j < id + 1) =
        insert j (Finset.univ.filter fun j => n.mid j < id) := by
      ext j'
      have hiff : n.mid j' = id ↔ j' = j := ⟨fun he => n.mid_injective (he.trans hj.symm), fun he => he ▸ hj⟩
      simp only [Finset.mem_filter, Finset.mem_univ, true_and, Finset.mem_insert, ← hiff]
      omega
    rw [hinsert, Finset.sup_insert, hinfo j hj]
    exact max_comm _ _

theorem change_eq {id : ℕ} (hid : id < n.maxAttached) {info : ManagerInfo} (hpid : info.pid = (n.info id).pid)
    (hinfo : ∀ j, n.mid j = id → info.dromCoreChange = n.delta j k) :
    (if info.pid = 0 then 0 else info.dromCoreChange) = n.change k id := by
  unfold change
  split
  · rename_i h0
    refine (Finset.sum_eq_zero fun j _ => if_neg fun he => ?_).symm
    exact n.registered j (by rw [he, ← hpid, h0])
  · rename_i h0
    obtain ⟨j, hj⟩ := n.free id hid (hpid ▸ h0)
    rw [Finset.sum_eq_single j (fun j' _ hne => if_neg fun he => hne (n.mid_injective (he.trans hj.symm)))
      (fun hno => absurd (Finset.mem_univ j) hno), if_pos hj, hinfo j hj]

theorem sup_all {id : ℕ} (hid : n.maxAttached ≤ id) :
    ((Finset.univ.filter fun j => n.mid j < id).sup fun j => n.action j k) = n.agreed k :=
  congrArg (fun f : Finset ι => f.sup fun j => n.action j k)
    (Finset.filter_true_of_mem fun j _ => (n.mid_lt j).trans_le hid)

variable [DecidableEq ι]

theorem Together.manager (h : Together n skip s) (hskip : skip = true → n.nodeBarrier = true)
    (hstep : n.step i (s.manager i) s.info = some (m', info')) :
    Together n skip { info := info', manager := update s.manager i m' } := by
  have hreads := h.reads i
  obtain ⟨hmarks, hvalid⟩ := step_marks (h.valid i)
    (fun id result hpc hid => (hreads.readActions id result hpc).2.trans (sup_all hid)) hstep
  have hexchange := step_exchange (h.valid i) hstep
  have hviews : ∀ j, view skip (n.marks j (update s.manager i m' j)) = view skip (n.marks j (s.manager j)) :=
    fun j => by
      by_cases hj : j = i
      · rw [hj, update_self, hmarks]
      · rw [update_of_ne hj]
  have hvalids : ∀ j, n.Valid (update s.manager i m' j) :=
    (Function.forall_update_iff s.manager fun _ m => n.Valid m).mpr ⟨hvalid, fun j _ => h.valid j⟩
  -- what is left to show is what each manager knows
  suffices hdata : (∀ id, (info' id).pid = (s.info id).pid) ∧ Reads n i m' info' ∧ ∀ j, j ≠ i →
      Reads n j (s.manager j) info' by
    refine ⟨fun j k => ?_, hvalids, fun id => (hdata.1 id).trans (h.pids id), ?_⟩
    · rw [hviews j, hviews k]
      exact h.views j k
    · exact (Function.forall_update_iff s.manager fun j m => Reads n j m info').mpr hdata.2
  have hmid : ∀ {j}, j ≠ i → n.mid j ≠ n.mid i := fun hj he => hj (n.mid_injective he)
  cases hexchange with
  | quiet hpc hactions hdeltas _ =>
    exact ⟨fun _ => rfl, .quiet hpc (hactions ▸ hreads.actions) (hdeltas ▸ hreads.deltas), fun j _ => h.reads j⟩
  | writeAction =>
    have hfirst : n.marks i (s.manager i) = ((s.manager i).call, .point .actions) ::
        n.decided i (s.manager i).call (n.later i ((s.manager i).call + 1)) := hmarks.symm
    refine ⟨fun id => ?_, ⟨fun _ => ?_, nofun, nofun, nofun, hreads.actions, hreads.deltas⟩, fun j hj => ?_⟩
    · by_cases hid : id = n.mid i
      · rw [hid, update_self]
      · rw [update_of_ne hid]
    · rw [update_self]
      rfl
    · refine (h.reads j).frame (fun _ => ?_) (fun _ => ?_) (fun id result hpc => ?_) fun id cpuDeltas hpc k => ?_
      · rw [update_of_ne (hmid hj)]
      · rw [update_of_ne (hmid hj)]
      · have hview := h.views j i
        rw [marks_readActions hpc, hfirst, view_strict rfl] at hview
        exact absurd hview (decided_ne hskip)
      · by_cases hk : n.mid k = n.mid i
        · rw [hk, update_self]
        · rw [update_of_ne hk]
  | @readAction id result hpc hid =>
    obtain ⟨hactions, hresult⟩ := hreads.readActions id result hpc
    refine ⟨fun _ => rfl, ⟨nofun, nofun, fun id' result' hpc' => ?_, nofun, hreads.actions, hreads.deltas⟩,
      fun j _ => h.reads j⟩
    obtain ⟨rfl, rfl⟩ := Pc.readActions.inj hpc'
    refine ⟨hactions, ?_⟩
    rw [hresult]
    exact sup_succ hid (h.pids id) fun j hj => hj ▸ hactions j
  | @actions _ id result hpc hid hpc' hactions hdeltas _ =>
    refine ⟨fun _ => rfl, .quiet hpc' (fun r hr => ?_) (hdeltas ▸ hreads.deltas), fun j _ => h.reads j⟩
    rw [hactions] at hr
    rcases mem_append.mp hr with hr | hr
    · exact hreads.actions r hr
    · rw [mem_singleton.mp hr]
      exact (hreads.readActions id result hpc).2.trans (sup_all hid)
  | writeDelta =>
    obtain ⟨l, hfirst⟩ : ∃ l, n.marks i (s.manager i) = ((s.manager i).call, .point .deltas) :: l :=
      hmarks ▸ marks_wait (n := n) (i := i) rfl
    refine ⟨fun id => ?_, ⟨nofun, fun _ => ?_, nofun, nofun, hreads.actions, hreads.deltas⟩, fun j hj => ?_⟩
    · by_cases hid : id = n.mid i
      · rw [hid, update_self]
      · rw [update_of_ne hid]
    · rw [update_self]
      rfl
    · refine (h.reads j).frame (fun _ => ?_) (fun _ => ?_) (fun id result _ k => ?_) fun id cpuDeltas hpc => ?_
      · rw [update_of_ne (hmid hj)]
      · rw [update_of_ne (hmid hj)]
      · by_cases hk : n.mid k = n.mid i
        · rw [hk, update_self]
        · rw [update_of_ne hk]
      · obtain ⟨l', hfirst'⟩ := marks_readDeltas (n := n) (i := j) hpc
        exact nomatch (Prod.mk.inj (h.strict hfirst hfirst' rfl rfl)).2
  | @readDelta id cpuDeltas hpc hid =>
    obtain ⟨hchanges, -, hcpuDeltas⟩ := hreads.readDeltas id cpuDeltas hpc
    refine ⟨fun _ => rfl, ⟨nofun, nofun, nofun, fun id' cpuDeltas' hpc' => ?_, hreads.actions, hreads.deltas⟩,
      fun j _ => h.reads j⟩
    obtain ⟨rfl, rfl⟩ := Pc.readDeltas.inj hpc'
    refine ⟨hchanges, hid, ?_⟩
    rw [range_succ, map_append, hcpuDeltas, change_eq hid (h.pids id) fun j hj => hj ▸ hchanges j]
    rfl
  | @deltas _ id cpuDeltas hpc hid hpc' hactions hdeltas _ =>
    refine ⟨fun _ => rfl, .quiet hpc' (hactions ▸ hreads.actions) fun r hr => ?_, fun j _ => h.reads j⟩
    rw [hdeltas] at hr
    rcases mem_append.mp hr with hr | hr
    · exact hreads.deltas r hr
    · obtain ⟨-, hle, hcpuDeltas⟩ := hreads.readDeltas id cpuDeltas hpc
      rw [mem_singleton.mp hr, ← Nat.le_antisymm hle hid]
      exact hcpuDeltas
  | @clear id hpc =>
    obtain ⟨l, hfirst⟩ := marks_clear (n := n) (i := i) hpc
    have hactions : ∀ k, (update s.info id { s.info id with dromCoreChange := 0 } k).actions = (s.info k).actions :=
      fun k => by
        by_cases hk : k = id
        · rw [hk, update_self]
        · rw [update_of_ne hk]
    refine ⟨fun k => ?_, .quiet trivial hreads.actions hreads.deltas, fun j _ => ?_⟩
    · by_cases hk : k = id
      · rw [hk, update_self]
      · rw [update_of_ne hk]
    · refine (h.reads j).frame (fun _ => hactions _) (fun hpc' => ?_) (fun _ _ _ k => hactions _) fun _ _ hpc' => ?_
      · obtain ⟨l', hfirst'⟩ := marks_wait (n := n) (i := j) hpc'
        exact nomatch (Prod.mk.inj (h.strict hfirst hfirst' rfl rfl)).2
      · obtain ⟨l', hfirst'⟩ := marks_readDeltas (n := n) (i := j) hpc'
        exact nomatch (Prod.mk.inj (h.strict hfirst hfirst' rfl rfl)).2

omit [DecidableEq ι] in
theorem Together.pass_reads (h : Together n skip s) (hskip : skip = true → n.nodeBarrier = true)
    (hpc : (s.manager i).pc = .wait p) (hall : ∀ j, ∃ p', (s.manager j).pc = .wait p') :
    Reads n i (n.pass i (s.manager i) p) s.info := by
  have hreads := h.reads i
  have hsame : p.loose = false → ∀ j, (s.manager j).pc = .wait p ∧ (s.manager j).call = (s.manager i).call :=
    fun hp j => by
      obtain ⟨p', hpc'⟩ := hall j
      obtain ⟨rfl, hcall⟩ := (pass_views hskip hpc hpc' (h.views i j)).2 (.inr hp)
      exact ⟨hpc', hcall⟩
  cases p with
  | actions =>
    refine ⟨nofun, nofun, fun id result hr => ?_, nofun, hreads.actions, hreads.deltas⟩
    obtain ⟨rfl, rfl⟩ := Pc.readActions.inj hr
    refine ⟨fun j => ?_, ?_⟩
    · obtain ⟨hpc', hcall⟩ := hsame rfl j
      rw [(h.reads j).proposed hpc', hcall]
      rfl
    · rw [Finset.filter_false_of_mem fun j _ => Nat.not_lt_zero _, Finset.sup_empty]
      rfl
  | deltas =>
    refine ⟨nofun, nofun, nofun, fun id cpuDeltas hr => ?_, hreads.actions, hreads.deltas⟩
    obtain ⟨rfl, rfl⟩ := Pc.readDeltas.inj hr
    refine ⟨fun j => ?_, Nat.zero_le _, rfl⟩
    obtain ⟨hpc', hcall⟩ := hsame rfl j
    rw [(h.reads j).offered hpc', hcall]
    rfl
  | deltasRead =>
    refine .quiet ?_ hreads.actions hreads.deltas
    show Quiet (if n.mid i = 0 then .clear 0 else .wait .deltasCleared)
    split
    · trivial
    · trivial
  | _ => exact .quiet trivial hreads.actions hreads.deltas

theorem point_isSome {pc : Pc} : pc.point.isSome = true ↔ ∃ p, pc = .wait p := by
  cases pc with
  | wait p => exact iff_of_true rfl ⟨p, rfl⟩
  | _ => exact iff_of_false nofun nofun

omit [Fintype ι] [DecidableEq ι] in
theorem passAll_manager (h : (s.manager i).pc = .wait p) : (n.passAll s).manager i = n.pass i (s.manager i) p := by
  unfold passAll
  dsimp only
  rw [h]
  rfl

theorem Together.step (h : Together n skip s) (hskip : skip = true → n.nodeBarrier = true) (hstep : n.Step s t) :
    Together n skip t := by
  obtain ⟨mover, hmove⟩ := hstep
  cases mover with
  | manager i =>
    obtain ⟨⟨m', info'⟩, hr, rfl⟩ := Option.map_eq_some_iff.mp hmove
    exact h.manager hskip hr
  | barrier =>
    obtain ⟨hsome, ht⟩ := Option.ite_none_right_eq_some.mp hmove
    obtain rfl := Option.some.inj ht
    have hall : ∀ j, ∃ p, (s.manager j).pc = .wait p := fun j => point_isSome.mp (hsome j)
    refine ⟨fun i j => ?_, fun i => ?_, h.pids, fun i => ?_⟩
    · obtain ⟨p, hp⟩ := hall i
      obtain ⟨p', hp'⟩ := hall j
      rw [passAll_manager hp, passAll_manager hp']
      exact (pass_views hskip hp hp' (h.views i j)).1
    · obtain ⟨p, hp⟩ := hall i
      rw [passAll_manager hp]
      exact pass_valid (h.valid i) hp
    · obtain ⟨p, hp⟩ := hall i
      rw [passAll_manager hp]
      exact h.pass_reads hskip hp hall
  | nodeBarrier =>
    obtain ⟨hall, ht⟩ := Option.ite_none_right_eq_some.mp hmove
    obtain rfl := Option.some.inj ht
    have hmarks : ∀ i, n.marks i (s.manager i) =
        ((s.manager i).call, .node) :: n.marks i ((s.manager i).goto .managerEnd) := fun i => by
      unfold marks
      rw [hall i]
      rfl
    refine ⟨fun i j => ?_, fun i => ?_, h.pids, fun i => .quiet trivial (h.reads i).actions (h.reads i).deltas⟩
    · have hviews := h.views i j
      rw [hmarks i, hmarks j, view_strict rfl, view_strict rfl] at hviews
      exact (cons.inj hviews).2
    · have hvalid := h.valid i
      unfold Valid at hvalid
      rw [hall i] at hvalid
      exact hvalid

/-- **The managers agree in every round**: along every run of any number of managers that start and stop the same
regions, whatever each proposes and whatever `drom_setprocessmask` returns, the actions that a manager gets are the
maximum of the actions proposed in the round, and the changes that it gets are those proposed in the round by the
managers of the entries, if the barrier of the node is used or the first masks of each state that is loaded are set by
all managers or by none. -/
theorem rounds_agree (n : Node ι) (hcond : n.nodeBarrier = true ∨ n.SameLoads) {s : Round ι}
    (hrun : Lib.Run n.Step n.start s) : n.Agree s := by
  rcases hcond with hnode | hloads
  · exact (hrun.invariant (P := Together n true) (.start nofun) fun _ _ h hstep => h.step (fun _ => hnode) hstep).agree
  · exact (hrun.invariant (P := Together n false) (.start fun _ => hloads) fun _ _ h hstep => h.step nofun hstep).agree

/-! ## Waiting for one another -/

/-- The managers have passed the same barriers. -/
def SameWaits (s : Round ι) : Prop := ∀ i j, (s.manager i).waits = (s.manager j).waits

theorem Together.waits (h : Together n false s) (hwaits : SameWaits s) (hstep : n.Step s t) : SameWaits t := by
  obtain ⟨mover, hmove⟩ := hstep
  cases mover with
  | manager i =>
    obtain ⟨⟨m', info'⟩, hr, rfl⟩ := Option.map_eq_some_iff.mp hmove
    have hsame : ∀ j, (update s.manager i m' j).waits = (s.manager j).waits := fun j => by
      by_cases hj : j = i
      · rw [hj, update_self, step_waits (h.valid i) hr]
      · rw [update_of_ne hj]
    exact fun j k => (hsame j).trans ((hwaits j k).trans (hsame k).symm)
  | barrier =>
    obtain ⟨hsome, ht⟩ := Option.ite_none_right_eq_some.mp hmove
    obtain rfl := Option.some.inj ht
    intro i j
    obtain ⟨p, hp⟩ := point_isSome.mp (hsome i)
    obtain ⟨p', hp'⟩ := point_isSome.mp (hsome j)
    obtain ⟨rfl, hcall⟩ := (pass_views (fun he : false = true => nomatch he) hp hp' (h.views i j)).2 (.inl rfl)
    have hpass : ∀ {i : ι} {m : Manager} {p}, (n.pass i m p).waits = m.waits ++ [(m.call, p)] := fun {_ _ p} => by
      cases p <;> rfl
    rw [passAll_manager hp, passAll_manager hp', hpass, hpass, hwaits i j, hcall]
  | nodeBarrier =>
    obtain ⟨-, ht⟩ := Option.ite_none_right_eq_some.mp hmove
    obtain rfl := Option.some.inj ht
    exact hwaits

theorem Together.live (h : Together n false s) : n.Live s := by
  by_cases hmoves : ∃ i r, n.step i (s.manager i) s.info = some r
  · obtain ⟨i, r, hr⟩ := hmoves
    exact .inr ⟨_, .manager i, by rw [move, hr]; rfl⟩
  have hnone : ∀ i, n.step i (s.manager i) s.info = none := fun i => by
    rw [Option.eq_none_iff_forall_ne_some]
    exact fun r hr => hmoves ⟨i, r, hr⟩
  have hready : ∀ {i}, (s.manager i).pc = .ready → n.calls.length ≤ (s.manager i).call → n.marks i (s.manager i) = [] :=
    fun hpc hcall => by
      unfold marks
      rw [hpc]
      exact later_of_le hcall
  have hnode : ∀ {i}, (s.manager i).pc = .nodeBarrier → ∃ l, n.marks i (s.manager i) = ((s.manager i).call, .node) :: l :=
    fun hpc => by
      unfold marks
      rw [hpc]
      exact ⟨_, rfl⟩
  have hviews : ∀ i j, n.marks i (s.manager i) = n.marks j (s.manager j) := h.views
  rcases isEmpty_or_nonempty ι with hempty | ⟨⟨i⟩⟩
  · exact .inl fun i => hempty.elim i
  rcases step_none (h.valid i) (hnone i) with ⟨hpc, hcall⟩ | ⟨p, hpc⟩ | hpc
  · refine .inl fun j => ?_
    have hnil := (hviews j i).trans (hready hpc hcall)
    rcases step_none (h.valid j) (hnone j) with hj | ⟨p, hpc'⟩ | hpc'
    · exact hj
    · obtain ⟨l, hl⟩ := marks_wait (n := n) (i := j) hpc'
      exact nomatch hl.symm.trans hnil
    · obtain ⟨l, hl⟩ := hnode hpc'
      exact nomatch hl.symm.trans hnil
  · obtain ⟨l, hl⟩ := marks_wait (n := n) (i := i) hpc
    refine .inr ⟨n.passAll s, .barrier, if_pos fun j => point_isSome.mpr ?_⟩
    rcases step_none (h.valid j) (hnone j) with ⟨hpc', hcall⟩ | hj | hpc'
    · exact nomatch hl.symm.trans ((hviews i j).trans (hready hpc' hcall))
    · exact hj
    · obtain ⟨l', hl'⟩ := hnode hpc'
      exact nomatch (Prod.mk.inj (cons.inj (hl.symm.trans ((hviews i j).trans hl'))).1).2
  · obtain ⟨l, hl⟩ := hnode hpc
    refine .inr ⟨_, .nodeBarrier, if_pos fun j => ?_⟩
    rcases step_none (h.valid j) (hnone j) with ⟨hpc', hcall⟩ | ⟨p, hpc'⟩ | hj
    · exact nomatch hl.symm.trans ((hviews i j).trans (hready hpc' hcall))
    · obtain ⟨l', hl'⟩ := marks_wait (n := n) (i := j) hpc'
      exact nomatch (Prod.mk.inj (cons.inj (hl.symm.trans ((hviews i j).trans hl'))).1).2
    · exact hj

/-- **The managers wait for one another**: along every run of any number of managers that start and stop the same
regions, whatever each proposes, the managers have passed the same barriers of the same calls, and none is left waiting
in a barrier that the others do not reach, if the first masks of each state that is loaded are set by all managers or by
none. -/
theorem same_waits (n : Node ι) (hloads : n.SameLoads) {s : Round ι} (hrun : Lib.Run n.Step n.start s) :
    SameWaits s ∧ n.Live s := by
  have hinv := hrun.invariant (P := fun s => Together n false s ∧ SameWaits s)
    ⟨.start fun _ => hloads, fun _ _ => rfl⟩ fun _ _ h hstep => ⟨h.1.step nofun hstep, h.1.waits h.2 hstep⟩
  exact ⟨hinv.2, hinv.1.live⟩

/-! ### Two managers -/

/-- The state after some moves, where those that are not possible do nothing. -/
def after (n : Node ι) (movers : List (Mover ι)) (s : Round ι) : Round ι :=
  movers.foldl (fun s mover => (n.move s mover).getD s) s

theorem run_after (movers : List (Mover ι)) (s : Round ι) : Lib.Run n.Step s (n.after movers s) := by
  induction movers generalizing s with
  | nil => exact .refl
  | cons mover rest ih =>
    refine .trans ?_ (ih _)
    dsimp only
    cases hmove : n.move s mover with
    | none => exact .refl
    | some t => exact .single ⟨mover, hmove⟩

/-- Two managers in the first two entries. The second one cannot set its mask in the calls of `fails`, and the first one
proposes to use DROM. -/
def pair (nodeBarrier : Bool) (calls : List RegionCall) (fails : List ℕ) : Node Bool where
  calls := calls
  drom := true
  nodeBarrier := nodeBarrier
  maxAttached := 2
  mid b := if b then 1 else 0
  info id := if id < 2 then { pid := id + 1 } else {}
  action b _ := if b then .none else .drom
  delta _ _ := 0
  setprocessmask b k := if b ∧ k ∈ fails then .errPdirty else .success
  mid_lt := by decide
  mid_injective := by decide
  registered := by decide
  free := by decide

/-- A manager moves as often as it can until its next barrier. -/
def moves (b : Bool) : List (Mover Bool) := replicate 6 (.manager b)

/-- The region is started, and stopped until the actions have been read. -/
def untilActions : List (Mover Bool) :=
  moves false ++ moves true ++ [.barrier] ++ moves false ++ moves true ++ [.barrier] ++ moves false ++ moves true ++
    [.nodeBarrier] ++ moves false ++ moves true ++ [.barrier] ++ moves false ++ moves true

theorem rounds_agree_pair : (pair true [.start "a", .stop "a"] []).Agree
    ((pair true [.start "a", .stop "a"] []).after untilActions (pair true [.start "a", .stop "a"] []).start) :=
  rounds_agree _ (.inl rfl) (run_after _ _)

/-- Without the barrier of the node, the second manager cannot set its first mask when the region is started, and goes
through the next round one barrier earlier than the first one. -/
theorem rounds_differ : ∃ s, Lib.Run (pair false [.start "a", .stop "a"] [0]).Step
    (pair false [.start "a", .stop "a"] [0]).start s ∧ ¬(pair false [.start "a", .stop "a"] [0]).Agree s := by
  refine ⟨(pair false [.start "a", .stop "a"] [0]).after
    (moves false ++ moves true ++ [.barrier] ++ moves true ++ moves false ++ [.barrier] ++ moves true) _, run_after _ _,
    fun hagree => ?_⟩
  have hactions := (hagree true).1 (1, .none) (by decide +kernel)
  exact absurd hactions (by decide)

theorem same_waits_pair : SameWaits ((pair true [.start "a"] []).after untilActions (pair true [.start "a"] []).start) ∧
    (pair true [.start "a"] []).Live ((pair true [.start "a"] []).after untilActions (pair true [.start "a"] []).start) :=
  same_waits _ (fun _ _ _ => .inl fun b => by cases b <;> rfl) (run_after _ _)

/-- The second manager cannot set its first mask when the region is started, and returns. -/
def leftWaiting : Round Bool :=
  (pair true [.start "a"] [0]).after (moves false ++ moves true ++ [.barrier] ++ moves false)
    (pair true [.start "a"] [0]).start

/-- The first manager waits in a barrier that the second one does not reach. -/
theorem waits_differ : Lib.Run (pair true [.start "a"] [0]).Step (pair true [.start "a"] [0]).start leftWaiting ∧
    ¬SameWaits leftWaiting ∧ ¬(pair true [.start "a"] [0]).Live leftWaiting := by
  refine ⟨run_after _ _, fun hwaits => absurd (hwaits false true) (by decide), ?_⟩
  rintro (hfinished | ⟨t, mover, hmove⟩)
  · exact absurd (hfinished false).1 (by decide)
  · have hnone : ((pair true [.start "a"] [0]).move leftWaiting mover).isNone = true := by
      rcases mover with ⟨_ | _⟩ | _ | _ <;> decide
    rw [hmove] at hnone
    exact nomatch hnone

end Node

end Dlb.Mngo

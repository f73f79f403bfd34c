import Mathlib.Data.Fintype.Pi
import Dlb.Mngo.Managers

/-!
# The rounds of the managers

Each process starts and stops the same regions. When a region is stopped, its managers agree on an action: each writes
its own proposal, waits in the barrier and reads those of all the others, and then the same once more for the number of
cores that each gives away. Between two barriers the managers are at any point of their code. A barrier lets the managers
go on when all of them have arrived, no matter in which of its calls they are.

* `Node.step`, `Node.move`: the code of a manager between two barriers, and a step of the node;
* `Node.marks`: the barriers that a manager still has to pass, if each round ends with the maximum of its proposals;
* `later_node`, `later_view`: what the barriers of the calls to come have in common for all managers.
-/

namespace Dlb.Mngo

/-! ## The code of a manager -/

namespace MngoActions

def code : MngoActions → ℕ
  | .none => 0
  | .lewiStart => 1
  | .lewiStop => 2
  | .drom => 3

theorem code_injective : Function.Injective code := fun a b h => by
  cases a <;> cases b <;> first | rfl | exact absurd h (by decide)

instance : LinearOrder MngoActions := LinearOrder.lift' code code_injective

instance : OrderBot MngoActions where
  bot := .none
  bot_le a := Nat.zero_le a.code

end MngoActions

/-- What the application calls, with the name of the region. -/
inductive RegionCall where
  | start (name : String)
  | stop (name : String)
deriving DecidableEq

/-- The calls of `shmem_mngo_barrier_wait`: in `alltoall_actions`, in `alltoall_deltas_start` and `_finish`, in
`redistribute`, in `print_redistribution`, in `mngo_state__load`, and at the end of `mngo_manager`. -/
inductive Point where
  | actions | deltas | deltasRead | deltasCleared | redistributed | reported | printed | load | final
deriving DecidableEq

/-- Where a manager is. `arrive` is the code before a barrier that does not use the data that is modelled here. -/
inductive Pc where
  | ready
  | nodeBarrier
  | managerEnd
  | arrive (point : Point)
  | wait (point : Point)
  | readActions (id : ℕ) (result : MngoActions)
  | balance
  | readDeltas (id : ℕ) (cpuDeltas : List ℤ)
  | clear (id : ℕ)
  | load
deriving DecidableEq

/-- A manager: its place in the calls of the application and in its code, the names of the active regions, the barriers
that it has passed, and the results of its rounds. -/
structure Manager where
  call : ℕ := 0
  pc : Pc := .ready
  active : List String := []
  waits : List (ℕ × Point) := []
  actions : List (ℕ × MngoActions) := []
  deltas : List (ℕ × List ℤ) := []

/-- The managers of a node: the calls that all of them make, the options, the entries, what each one proposes in each
call, and the result of its first `drom_setprocessmask` there. Every manager has an entry and every entry is that of a
manager. -/
structure Node (ι : Type*) where
  calls : List RegionCall
  drom : Bool
  nodeBarrier : Bool
  maxAttached : ℕ
  mid : ι → ℕ
  info : ℕ → ManagerInfo
  action : ι → ℕ → MngoActions
  delta : ι → ℕ → ℤ
  setprocessmask : ι → ℕ → DlbError
  mid_lt : ∀ i, mid i < maxAttached
  mid_injective : Function.Injective mid
  registered : ∀ i, (info (mid i)).pid ≠ 0
  free : ∀ id < maxAttached, (info id).pid ≠ 0 → ∃ i, mid i = id

namespace Manager

variable (m : Manager)

def next : Manager :=
  { m with
    call := m.call + 1
    pc := .ready }

def goto (pc : Pc) : Manager := { m with pc := pc }

def checkTop (name : String) : Bool := m.active.head? = some name

/-- The region of the call is popped, and the state of the one below it is loaded. -/
def pop : Manager :=
  { m with
    active := m.active.tail
    pc := .load }

end Manager

variable {ι : Type*}

namespace Node

variable (n : Node ι) (i : ι)

/-- A manager goes on until it has to wait: `mngo_region_start`, `mngo_region_stop`, and what they call. Nothing is
modelled of the metrics, of the redistribution of the cores and of the report but their barriers. -/
def step (m : Manager) (info : ℕ → ManagerInfo) : Option (Manager × (ℕ → ManagerInfo)) :=
  match m.pc with
  | .ready =>
    match n.calls[m.call]? with
    | none => none
    | some (.start name) =>
      if m.checkTop name then some (m.next, info)
      else some ({ m with active := name :: m.active, pc := .load }, info)
    | some (.stop _) => some (m.goto (if n.nodeBarrier then .nodeBarrier else .managerEnd), info)
  | .managerEnd =>
    match n.calls[m.call]? with
    | some (.stop name) =>
      if m.checkTop name then
        some (m.goto (.wait .actions),
          Function.update info (n.mid i) { info (n.mid i) with actions := n.action i m.call })
      else some (m.next, info)
    | _ => none
  | .readActions id result =>
    if id < n.maxAttached then
      some (m.goto (.readActions (id + 1) (if (info id).pid = 0 then result else max result (info id).actions)), info)
    else
      let m := { m with actions := m.actions ++ [(m.call, result)] }
      if result = .drom then some (m.goto .balance, info) else some (m.pop, info)
  | .balance =>
    some (m.goto (.wait .deltas),
      Function.update info (n.mid i) { info (n.mid i) with dromCoreChange := n.delta i m.call })
  | .readDeltas id cpuDeltas =>
    if id < n.maxAttached then
      some (m.goto (.readDeltas (id + 1) (cpuDeltas ++ [if (info id).pid = 0 then 0 else (info id).dromCoreChange])), info)
    else
      let m := { m with deltas := m.deltas ++ [(m.call, cpuDeltas)] }
      some (m.goto (.wait .deltasRead), info)
  | .clear id =>
    if id < n.maxAttached then
      some (m.goto (.clear (id + 1)), Function.update info id { info id with dromCoreChange := 0 })
    else some (m.goto (.wait .deltasCleared), info)
  | .load =>
    -- `mngo_state__load` returns before its barrier if the first mask is not set, and its result is not used
    if n.drom ∧ n.setprocessmask i m.call = .success then some (m.goto (.wait .load), info)
    else some (m.goto (.arrive .final), info)
  | .arrive point => some (m.goto (.wait point), info)
  | .nodeBarrier => none
  | .wait _ => none

def pass (m : Manager) (point : Point) : Manager :=
  let m := { m with waits := m.waits ++ [(m.call, point)] }
  match point with
  | .actions => m.goto (.readActions 0 .none)
  | .deltas => m.goto (.readDeltas 0 [])
  | .deltasRead => m.goto (if n.mid i = 0 then .clear 0 else .wait .deltasCleared)
  | .deltasCleared => m.goto (.arrive .redistributed)
  | .redistributed => m.goto (.arrive .reported)
  | .reported => m.goto (.arrive .printed)
  | .printed => m.pop
  | .load => m.goto (.arrive .final)
  | .final => m.next

end Node

/-! ## Runs -/

/-- The entries of the shared memory and the managers. -/
structure Round (ι : Type*) where
  info : ℕ → ManagerInfo
  manager : ι → Manager := fun _ => {}

def Pc.point : Pc → Option Point
  | .wait point => some point
  | _ => none

/-- Who moves: one manager, or the barriers of the managers and of the node, when all managers have arrived. -/
inductive Mover (ι : Type*) where
  | manager (i : ι)
  | barrier
  | nodeBarrier

namespace Node

variable [Fintype ι] [DecidableEq ι] (n : Node ι)

def start : Round ι where
  info := n.info

def passAll (s : Round ι) : Round ι :=
  { s with manager := fun i => ((s.manager i).pc.point.map (n.pass i (s.manager i))).getD (s.manager i) }

def move (s : Round ι) : Mover ι → Option (Round ι)
  | .manager i =>
    (n.step i (s.manager i) s.info).map fun r => { info := r.2, manager := Function.update s.manager i r.1 }
  | .barrier => if ∀ i, (s.manager i).pc.point.isSome then some (n.passAll s) else none
  | .nodeBarrier =>
    if ∀ i, (s.manager i).pc = .nodeBarrier then
      some { s with manager := fun i => (s.manager i).goto .managerEnd }
    else none

def Step (s t : Round ι) : Prop := ∃ mover, n.move s mover = some t

def Finished (s : Round ι) : Prop := ∀ i, (s.manager i).pc = .ready ∧ n.calls.length ≤ (s.manager i).call

def agreed (k : ℕ) : MngoActions := Finset.univ.sup fun i => n.action i k

/-- The change that the manager of an entry proposes in a round, and 0 for an entry without a manager. -/
def change (k id : ℕ) : ℤ := ∑ i, if n.mid i = id then n.delta i k else 0

/-- The managers have got the actions and the changes of their rounds. -/
def Agree (s : Round ι) : Prop := ∀ i,
  (∀ r ∈ (s.manager i).actions, r.2 = n.agreed r.1) ∧
    ∀ r ∈ (s.manager i).deltas, r.2 = (List.range n.maxAttached).map (n.change r.1)

def Live (s : Round ι) : Prop := n.Finished s ∨ ∃ t, n.Step s t

end Node

/-! ## The barriers that are still to come -/

inductive Mark where
  | node
  | point (point : Point)
deriving DecidableEq

/-- The barriers at which managers may differ if they differ in a state that they load. -/
def Point.loose : Point → Bool
  | .load => true
  | .final => true
  | _ => false

def Mark.strict : ℕ × Mark → Bool
  | (_, .node) => true
  | (_, .point p) => !p.loose

/-- The barriers of `mngo_drom__balance`, from one of them on. -/
def Point.chain : Point → List Point
  | .deltas => [.deltas, .deltasRead, .deltasCleared, .redistributed, .reported, .printed]
  | .deltasRead => [.deltasRead, .deltasCleared, .redistributed, .reported, .printed]
  | .deltasCleared => [.deltasCleared, .redistributed, .reported, .printed]
  | .redistributed => [.redistributed, .reported, .printed]
  | .reported => [.reported, .printed]
  | .printed => [.printed]
  | _ => []

def view (skip : Bool) (l : List (ℕ × Mark)) : List (ℕ × Mark) := if skip then l.filter Mark.strict else l

theorem view_strict {skip : Bool} {x : ℕ × Mark} {l : List (ℕ × Mark)} (h : Mark.strict x = true) :
    view skip (x :: l) = x :: view skip l := by
  cases skip with
  | true => exact List.filter_cons_of_pos h
  | false => rfl

theorem view_loose {x : ℕ × Mark} {l : List (ℕ × Mark)} (h : Mark.strict x = false) :
    view true (x :: l) = view true l :=
  List.filter_cons_of_neg (Bool.not_eq_true _ ▸ h)

namespace Node

variable (n : Node ι) (i : ι)

/-- The names of the active regions before a call. -/
def activeAt : ℕ → List String
  | 0 => []
  | k + 1 =>
    match n.calls[k]? with
    | some (.start name) => if (activeAt k).head? = some name then activeAt k else name :: activeAt k
    | some (.stop name) => if (activeAt k).head? = some name then (activeAt k).tail else activeAt k
    | none => activeAt k

/-- A state is loaded in the call: a region is started that is not on top, or the one on top is stopped. -/
def Loads (k : ℕ) : Prop :=
  match n.calls[k]? with
  | some (.start name) => (n.activeAt k).head? ≠ some name
  | some (.stop name) => (n.activeAt k).head? = some name
  | none => False

/-- In each state that is loaded, the first mask is set by all managers or by none. -/
def SameLoads : Prop :=
  n.drom → ∀ k, n.Loads k → (∀ i, n.setprocessmask i k = .success) ∨ ∀ i, n.setprocessmask i k ≠ .success

/-- Loading a state, the end of `mngo_manager`, and what comes later. -/
def closing (k : ℕ) (later : List (ℕ × Mark)) : List (ℕ × Mark) :=
  (if n.drom ∧ n.setprocessmask i k = .success then [(k, .point .load)] else []) ++ (k, .point .final) :: later

section Maximum

variable [Fintype ι]

def decided (k : ℕ) (later : List (ℕ × Mark)) : List (ℕ × Mark) :=
  (if n.agreed k = .drom then (Point.chain .deltas).map fun point => (k, .point point) else []) ++ n.closing i k later

def ending (k : ℕ) (later : List (ℕ × Mark)) : List (ℕ × Mark) :=
  match n.calls[k]? with
  | some (.stop name) =>
    if (n.activeAt k).head? = some name then (k, .point .actions) :: n.decided i k later else later
  | _ => later

def callMarks (k : ℕ) (later : List (ℕ × Mark)) : List (ℕ × Mark) :=
  match n.calls[k]? with
  | some (.start name) => if (n.activeAt k).head? = some name then later else n.closing i k later
  | some (.stop _) => if n.nodeBarrier then (k, .node) :: n.ending i k later else n.ending i k later
  | none => later

def callsMarks : ℕ → ℕ → List (ℕ × Mark)
  | 0, _ => []
  | r + 1, k => n.callMarks i k (callsMarks r (k + 1))

def later (k : ℕ) : List (ℕ × Mark) := n.callsMarks i (n.calls.length - k) k

def pointMarks (k : ℕ) : Point → List (ℕ × Mark)
  | .actions => (k, .point .actions) :: n.decided i k (n.later i (k + 1))
  | .load => (k, .point .load) :: (k, .point .final) :: n.later i (k + 1)
  | .final => (k, .point .final) :: n.later i (k + 1)
  | point => (point.chain.map fun point => (k, .point point)) ++ n.closing i k (n.later i (k + 1))

/-- The barriers that a manager still has to pass, if its round ends with the maximum. -/
def marks (m : Manager) : List (ℕ × Mark) :=
  let later := n.later i (m.call + 1)
  match m.pc with
  | .ready => n.later i m.call
  | .nodeBarrier => (m.call, .node) :: n.ending i m.call later
  | .managerEnd => n.ending i m.call later
  | .arrive point => n.pointMarks i m.call point
  | .wait point => n.pointMarks i m.call point
  | .readActions _ _ => n.decided i m.call later
  | .balance => n.pointMarks i m.call .deltas
  | .readDeltas _ _ => n.pointMarks i m.call .deltasRead
  | .clear _ => n.pointMarks i m.call .deltasCleared
  | .load => n.closing i m.call later

end Maximum

/-- A place at which no data of the exchange is at stake. -/
def Quiet : Pc → Prop
  | .wait .actions => False
  | .wait .deltas => False
  | .readActions _ _ => False
  | .readDeltas _ _ => False
  | _ => True

/-- What holds of a manager at each place: it knows the active regions, and it exchanges data only at the stop of the
region on top. -/
def Valid (m : Manager) : Prop :=
  match m.pc with
  | .ready => m.active = n.activeAt m.call
  | .nodeBarrier => m.active = n.activeAt m.call ∧ ∃ name, n.calls[m.call]? = some (.stop name)
  | .managerEnd => m.active = n.activeAt m.call ∧ ∃ name, n.calls[m.call]? = some (.stop name)
  | .load => m.active = n.activeAt (m.call + 1)
  | .arrive point =>
    Quiet (.wait point) ∧ if point.loose then m.active = n.activeAt (m.call + 1) else Exchanging m
  | .wait point => if point.loose then m.active = n.activeAt (m.call + 1) else Exchanging m
  | _ => Exchanging m
where
  Exchanging (m : Manager) : Prop := m.active = n.activeAt m.call ∧
    ∃ name, n.calls[m.call]? = some (.stop name) ∧ (n.activeAt m.call).head? = some name

variable {n i}
variable [Fintype ι] {k : ℕ} {l : List (ℕ × Mark)} {j : ι}

theorem later_of_lt (h : k < n.calls.length) : n.later i k = n.callMarks i k (n.later i (k + 1)) := by
  unfold later
  obtain ⟨r, hr⟩ : ∃ r, n.calls.length - k = r + 1 := ⟨n.calls.length - k - 1, by omega⟩
  have hr' : n.calls.length - (k + 1) = r := by omega
  rw [hr, hr', callsMarks]

theorem later_of_le (h : n.calls.length ≤ k) : n.later i k = [] := by
  unfold later
  rw [Nat.sub_eq_zero_of_le h, callsMarks]

omit [Fintype ι] in
theorem closing_view : view true (n.closing i k l) = view true l := by
  unfold closing
  split
  · exact (view_loose rfl).trans (view_loose rfl)
  · exact view_loose rfl

theorem later_node (h : n.nodeBarrier = true) : ∀ x ∈ (view true (n.later i k)).head?, x.2 = .node := by
  unfold later
  generalize n.calls.length - k = r
  induction r generalizing k with
  | zero => exact nofun
  | succ r ih =>
    unfold callsMarks callMarks
    split
    · split
      · exact ih
      · rw [closing_view]
        exact ih
    · rw [if_pos h, view_strict rfl]
      intro x hx
      rw [← Option.some.inj hx]
    · exact ih

theorem later_view {skip : Bool} (h : skip = false → n.SameLoads) : view skip (n.later i k) = view skip (n.later j k) := by
  unfold later
  generalize n.calls.length - k = r
  have hclosing : ∀ {k l l'}, n.Loads k → view skip l = view skip l' →
      view skip (n.closing i k l) = view skip (n.closing j k l') := fun {k l l'} hk hl => by
    cases skip with
    | true => rw [closing_view, closing_view, hl]
    | false =>
      have hloads : (n.drom ∧ n.setprocessmask i k = .success) ↔ (n.drom ∧ n.setprocessmask j k = .success) :=
        and_congr_right fun hdrom => by
          rcases h rfl hdrom k hk with hall | hnone
          · exact iff_of_true (hall i) (hall j)
          · exact iff_of_false (hnone i) (hnone j)
      have hl : l = l' := hl
      show n.closing i k l = n.closing j k l'
      unfold closing
      simp only [hloads, hl]
  induction r generalizing k with
  | zero => rfl
  | succ r ih =>
    have hchain : ∀ (points : List Point) {l l'}, view skip l = view skip l' → (∀ point ∈ points, point.loose = false) →
        view skip ((points.map fun point => (k, .point point)) ++ l) =
          view skip ((points.map fun point => (k, .point point)) ++ l') := fun points {l l'} hl hp => by
      induction points with
      | nil => exact hl
      | cons point rest ih =>
        have hstrict : Mark.strict (k, .point point) = true := by
          show (!point.loose) = true
          rw [hp point List.mem_cons_self]
          rfl
        rw [List.map_cons, List.cons_append, List.cons_append, view_strict hstrict, view_strict hstrict,
          ih fun point hpoint => hp point (List.mem_cons_of_mem _ hpoint)]
    have hending : ∀ {l l'}, view skip l = view skip l' →
        view skip (n.ending i k l) = view skip (n.ending j k l') := fun {l l'} hl => by
      unfold ending
      split
      · rename_i name hcall
        split
        · rename_i hhead
          have hk : n.Loads k := by
            unfold Loads
            rw [hcall]
            exact hhead
          rw [view_strict rfl, view_strict rfl]
          refine congrArg _ ?_
          unfold decided
          split
          · exact hchain _ (hclosing hk hl) (by decide)
          · exact hclosing hk hl
        · exact hl
      · exact hl
    unfold callsMarks callMarks
    split
    · rename_i name hcall
      split
      · exact ih
      · rename_i hhead
        have hk : n.Loads k := by
          unfold Loads
          rw [hcall]
          exact hhead
        exact hclosing hk ih
    · split
      · rw [view_strict rfl, view_strict rfl, hending ih]
      · exact hending ih
    · exact ih

end Node

end Dlb.Mngo

import Dlb.Mngo.Managers

/-!
# The active regions

`mngo_manager` takes a region off the stack of the active regions (`MANAGER_END`), or puts it there (`MANAGER_BEGIN`), and
loads the state of the region on top. The region on top is compared by its name. Metrics and decisions are those that a call
comes with.

* `Consistent.next`: regions on top of each other have different names, and the state of the one on top is loaded.
-/

namespace Dlb.Mngo

open Function

/-- `mngo_state_t` -/
structure MngoState where
  lewiOn : Bool
  dromMask : CpuSet

/-- `mngo_apply_actions` -/
def MngoState.applyActions (state : MngoState) (actions : MngoActions) (nextMask : CpuSet) : MngoState :=
  match actions with
  | .lewiStart => { state with lewiOn := true }
  | .lewiStop => { state with lewiOn := false }
  | .drom => { state with dromMask := nextMask }
  | .none => state

/-- `mngo_manager_entrypoint_t` -/
inductive Entrypoint where
  | managerBegin | managerEnd | both
deriving DecidableEq

/-- A call of `mngo_manager`, with the metrics of the region and what all managers decide. -/
structure ManagerCall (ρ μ : Type*) where
  region : ρ
  entrypoint : Entrypoint
  metrics : μ
  actions : MngoActions := .none
  nextMask : CpuSet := ∅

/-- The regions, the stack of the active ones, and the state that has been loaded last. -/
structure ActiveRegions (ρ μ : Type*) where
  state : ρ → MngoState
  defaultState : MngoState
  history : ρ → List μ := fun _ => []
  active : List ρ := []
  loaded : Option MngoState := none

variable {ρ μ : Type*} [DecidableEq ρ] (name : ρ → List Char)

namespace ActiveRegions

variable (s : ActiveRegions ρ μ)

/-- `mngo_regions__get_current_resources` -/
def getCurrentResources : MngoState := (s.active.head?.map s.state).getD s.defaultState

def setCurrentResources (state : MngoState) : ActiveRegions ρ μ :=
  match s.active with
  | [] => { s with defaultState := state }
  | top :: _ => { s with state := update s.state top state }

/-- `mngo_state__load` -/
def load : ActiveRegions ρ μ := { s with loaded := some s.getCurrentResources }

/-- `mngo_regions__check_top` -/
def checkTop (region : ρ) : Bool := s.active.head?.any (name · = name region)

/-- `mngo_regions__pop_active` -/
def popActive (region : ρ) : ActiveRegions ρ μ :=
  if s.checkTop name region then { s with active := s.active.tail } else s

/-- `MANAGER_END`, for a region on top. -/
def managerEnd (call : ManagerCall ρ μ) : ActiveRegions ρ μ :=
  let s := { s with history := update s.history call.region (call.metrics :: s.history call.region) }
  let s := s.setCurrentResources (s.getCurrentResources.applyActions call.actions call.nextMask)
  (s.popActive name call.region).load

/-- `MANAGER_BEGIN` -/
def managerBegin (region : ρ) : ActiveRegions ρ μ × DlbError :=
  if s.checkTop name region then (s, .noupdt) else ({ s with active := region :: s.active }.load, .success)

/-- `mngo_manager` -/
def mngoManager (call : ManagerCall ρ μ) : ActiveRegions ρ μ × DlbError :=
  match call.entrypoint with
  | .managerBegin => s.managerBegin name call.region
  | .managerEnd => if s.checkTop name call.region then (s.managerEnd name call, .success) else (s, .noupdt)
  | .both =>
    if s.checkTop name call.region then (s.managerEnd name call).managerBegin name call.region else (s, .noupdt)

def next (call : ManagerCall ρ μ) : ActiveRegions ρ μ := (s.mngoManager name call).1

/-! ## What is expected -/

def push (region : ρ) (stack : List ρ) : List ρ := if stack.head? = some region then stack else region :: stack

def pop (region : ρ) (stack : List ρ) : List ρ := if stack.head? = some region then stack.tail else stack

def expected (call : ManagerCall ρ μ) (stack : List ρ) : List ρ :=
  match call.entrypoint with
  | .managerBegin => push call.region stack
  | .managerEnd => pop call.region stack
  | .both => push call.region (pop call.region stack)

/-- The stack is the expected one in every state of the run, with the state of the region on top loaded, and where the helper
thread wakes up for its region it measures each time but the first. -/
structure Drives (calls : List (ManagerCall ρ μ)) : Prop where
  stack : Lib.Along (fun s call => s.next name call) (fun s call => (s.next name call).active = expected call s.active ∧
    ∀ state ∈ (s.next name call).loaded, state = (s.next name call).getCurrentResources) s calls
  helper : ∀ region, calls ≠ [] → (∀ call ∈ calls, call.region = region ∧ call.entrypoint = .both) →
    (calls.foldl (fun s call => s.next name call) s).active.head? = some region ∧
      ((calls.foldl (fun s call => s.next name call) s).history region).length = calls.length - 1

/-- No other region on top has the name of the region, and a call with both bits finds it on top. -/
def Matched (call : ManagerCall ρ μ) : Prop :=
  (s.checkTop name call.region = true → s.active.head? = some call.region) ∧
    (call.entrypoint = .both → s.checkTop name call.region = true)

/-! ## One call -/

structure Consistent : Prop where
  names : s.active.IsChain (name · ≠ name ·)
  loaded : ∀ state ∈ s.loaded, state = s.getCurrentResources

variable {name} {s} {call : ManagerCall ρ μ} {region top : ρ} {rest : List ρ}

omit [DecidableEq ρ] in
theorem load_loaded : ∀ state ∈ s.load.loaded, state = s.load.getCurrentResources := fun _ h => (Option.some.inj h).symm

theorem setCurrentResources_active (state : MngoState) : (s.setCurrentResources state).active = s.active := by
  unfold setCurrentResources
  split <;> rfl

omit [DecidableEq ρ] in
theorem checkTop_cons (h : s.active = top :: rest) : s.checkTop name region = true ↔ name top = name region := by
  simp [checkTop, h]

theorem managerEnd_active (h : s.checkTop name call.region) : (s.managerEnd name call).active = s.active.tail := by
  have hactive := setCurrentResources_active (s := { s with
    history := update s.history call.region (call.metrics :: s.history call.region) })
  simp only [managerEnd, load, popActive]
  rw [if_pos (by unfold checkTop at h ⊢; rwa [hactive]), hactive]

omit [DecidableEq ρ] in
theorem managerBegin_active : (s.managerBegin name region).1.active =
    if s.checkTop name region then s.active else region :: s.active := by
  unfold managerBegin
  split <;> rfl

omit [DecidableEq ρ] in
theorem Consistent.managerBegin (h : s.Consistent name) : (s.managerBegin name region).1.Consistent name := by
  unfold ActiveRegions.managerBegin
  split
  · exact h
  · next htop =>
    refine ⟨?_, load_loaded⟩
    cases hactive : s.active with
    | nil => simp [load]
    | cons top rest =>
      have hne : name region ≠ name top := fun heq => htop ((checkTop_cons hactive).mpr heq.symm)
      exact .cons_cons hne (hactive ▸ h.names)

theorem Consistent.managerEnd (h : s.Consistent name) (htop : s.checkTop name call.region) :
    (s.managerEnd name call).Consistent name := by
  refine ⟨?_, load_loaded⟩
  rw [managerEnd_active htop]
  exact h.names.tail

theorem Consistent.next (h : s.Consistent name) (call : ManagerCall ρ μ) : (s.next name call).Consistent name := by
  unfold ActiveRegions.next mngoManager
  split
  · exact h.managerBegin
  · split
    · next htop => exact h.managerEnd htop
    · exact h
  · split
    · next htop => exact (h.managerEnd htop).managerBegin
    · exact h

theorem Consistent.active_iff (h : s.Consistent name) (call : ManagerCall ρ μ) :
    (s.next name call).active = expected call s.active ↔ s.Matched name call := by
  cases hactive : s.active with
  | nil =>
    have htop : s.checkTop name call.region = false := by simp [checkTop, hactive]
    cases hentry : call.entrypoint <;>
      simp [Matched, expected, ActiveRegions.next, mngoManager, managerBegin_active, hentry, htop, hactive, push, pop]
  | cons top rest =>
    have hcheck : s.checkTop name call.region = true ↔ name top = name call.region := checkTop_cons hactive
    by_cases htop : name top = name call.region
    · have hended := managerEnd_active (hcheck.mpr htop)
      rw [hactive, List.tail_cons] at hended
      have hchain : (top :: rest).IsChain (name · ≠ name ·) := hactive ▸ h.names
      have hbelow : ∀ below ∈ rest.head?, name below ≠ name call.region := fun below hbelow heq =>
        (List.isChain_cons.mp hchain).1 below hbelow (htop.trans heq.symm)
      have hnot : rest.head? ≠ some call.region := fun hhead => hbelow _ hhead rfl
      have hrest : (s.managerEnd name call).checkTop name call.region = false := by
        rw [checkTop, hended]
        cases hhead : rest.head? with
        | none => rfl
        | some below => exact decide_eq_false (hbelow below hhead)
      by_cases hsame : top = call.region <;> cases hentry : call.entrypoint <;>
        simp [Matched, expected, ActiveRegions.next, mngoManager, managerBegin_active, hentry, hcheck, htop, hactive, push, pop,
          hsame, hrest, hnot, hended]
    · have hsame : top ≠ call.region := fun h => htop (h ▸ rfl)
      cases hentry : call.entrypoint <;>
        simp [Matched, expected, ActiveRegions.next, mngoManager, managerBegin_active, hentry, hcheck, htop, hactive, push, pop,
          hsame]

/-- **The stack** drives what is loaded in every state of a run exactly if its calls are matched. -/
theorem manager_drives_iff (name : ρ → List Char) (state : ρ → MngoState) (defaultState : MngoState)
    (calls : List (ManagerCall ρ μ)) :
    Drives name ⟨state, defaultState, fun _ => [], [], none⟩ calls ↔
      Lib.Along (fun s call => s.next name call) (Matched name) ⟨state, defaultState, fun _ => [], [], none⟩ calls := by
  have hstack := Lib.Along.congr (I := Consistent (μ := μ) name) (R := fun _ => True)
    (fun s call hs _ _ => hs.next call)
    (fun s call hs _ => (and_iff_left (hs.next call).loaded).trans (hs.active_iff call))
    ⟨state, defaultState, fun _ => [], [], none⟩ calls ⟨.nil, nofun⟩ fun _ _ => trivial
  refine ⟨fun h => hstack.mp h.stack, fun h => ⟨hstack.mpr h, fun region hne hwake => ?_⟩⟩
  -- the first time the stack is empty, where a call with both bits is not matched
  obtain ⟨call, rest, rfl⟩ := List.exists_cons_of_ne_nil hne
  exact absurd (h.1.2 (hwake call List.mem_cons_self).2) Bool.false_ne_true

theorem helper_never_active (name : ρ → List Char) (s : ActiveRegions ρ μ) (hempty : s.active = []) (calls : List (ManagerCall ρ μ))
    (hwake : ∀ call ∈ calls, call.entrypoint = .both) : calls.foldl (fun s call => s.next name call) s = s := by
  induction calls with
  | nil => rfl
  | cons call calls ih =>
    obtain ⟨hboth, hwake⟩ := List.forall_mem_cons.mp hwake
    have hsame : s.next name call = s := by simp [ActiveRegions.next, mngoManager, hboth, checkTop, hempty]
    rw [List.foldl_cons, hsame]
    exact ih hwake

/-- The helper thread wakes up once. -/
theorem helper_wakes : ¬Drives (fun _ : Unit => "helper-thread".toList) ⟨fun _ => ⟨false, ∅⟩, ⟨false, ∅⟩, fun _ => [], [], none⟩
    [{ region := (), entrypoint := .both, metrics := () }] := fun h =>
  nomatch (h.helper () (List.cons_ne_nil _ _) (by simp)).1

end ActiveRegions

end Dlb.Mngo

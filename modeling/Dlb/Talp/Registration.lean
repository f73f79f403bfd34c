import Dlb.Lib.Run
import Dlb.Support.MaskText
import Mathlib.Data.Fin.VecNotation

/-!
# Registration of regions

`region_register` looks a name up in the tree of regions and, where it finds nothing, creates a monitor and inserts it.
The lookup and the insertion take the lock of the tree one after the other, so that other calls may run between them:
`exec` makes one step of one call, and a run is any interleaving of the steps of any number of calls, that of
`talp_init` for the global region among them.

A pointer is the number of the allocation. `g_tree_insert` replaces the value of a name that is there, and
`region_dealloc` frees the old one.

* `Good`: what holds as long as every monitor is inserted under a new name, kept by every step (`Good.exec`).
-/

namespace Dlb.Talp

open Function Lib

/-! ## Names -/

def monitorNameMax : ℕ := 128

/-- The name of a call: `NULL`, `DLB_LAST_OPEN_REGION` or a text. -/
inductive RegionName where
  | null | lastOpenRegion
  | text (name : List Char)

/-- `strncasecmp`, as a test for equal texts. -/
def strncaseEq (a b : List Char) (n : ℕ) : Bool := (a.take n).map Char.toLower = (b.take n).map Char.toLower

def globalRegionName : List Char := "Global".toList

/-- The names that `region_register` refuses. -/
def RegionName.isForbidden : RegionName → Bool
  | .null => false
  | .lastOpenRegion => true
  | .text name => strncaseEq "all".toList name (monitorNameMax - 1)

/-- The key of a name in the tree, where names are compared up to `DLB_MONITOR_NAME_MAX - 1` characters. A name that
is that of the global region but for the case stands for it. -/
def regionKey (name : List Char) : List Char :=
  (if strncaseEq globalRegionName name (monitorNameMax - 1) then globalRegionName else name).take (monitorNameMax - 1)

/-- The key that is looked up. An anonymous region is not. -/
def RegionName.key : RegionName → Option (List Char)
  | .null | .lastOpenRegion | .text [] => none
  | .text name => some (regionKey name)

def anonymousName (n : ℕ) : List Char := ("Anonymous Region ".toList ++ decimal n).take (monitorNameMax - 1)

/-! ## Calls -/

/-- How far a call of `region_register` has come: it has not looked its name up, it has found nothing (and is anonymous
or not), it has created a monitor, it has returned a monitor, or `NULL`. -/
inductive RegisterCall where
  | called
  | missed (key : Option (List Char))
  | created (key : List Char) (monitor : ℕ)
  | returned (key : List Char) (monitor : ℕ)
  | refused

/-- What a call has returned, with the key of that. -/
def RegisterCall.result : RegisterCall → Option (List Char × ℕ)
  | .returned key monitor => some (key, monitor)
  | _ => none

/-- The tree `talp_info->regions`, the allocations, the anonymous regions so far, and the calls. -/
structure Registration (γ : Type*) where
  regions : List Char → Option ℕ := fun _ => none
  allocated : ℕ := 0
  freed : List ℕ := []
  anonymousId : ℕ := 0
  calls : γ → RegisterCall := fun _ => .called

inductive RegisterStep where
  | lookup | create | insert

variable {γ : Type*} [DecidableEq γ]

namespace Registration

variable (s : Registration γ) (c : γ)

def setCall (call : RegisterCall) : Registration γ := { s with calls := update s.calls c call }

@[simp] theorem setCall_calls_self (call : RegisterCall) : (s.setCall c call).calls c = call :=
  update_self _ _ _

theorem setCall_calls_of_ne {c' : γ} (h : c' ≠ c) (call : RegisterCall) :
    (s.setCall c call).calls c' = s.calls c' :=
  update_of_ne h _ _

/-- The checks of the name, and `g_tree_lookup` under the lock. -/
def lookup (name : RegionName) : Registration γ :=
  if name.isForbidden then s.setCall c .refused
  else
    match name.key with
    | none => s.setCall c (.missed none)
    | some key =>
      match s.regions key with
      | some monitor => s.setCall c (.returned key monitor)
      | none => s.setCall c (.missed (some key))

/-- `region_initialize` of a new monitor, whose name an anonymous region has to construct. -/
def create (key : Option (List Char)) : Registration γ :=
  match key with
  | some key => { s with allocated := s.allocated + 1 }.setCall c (.created key s.allocated)
  | none =>
    { s with allocated := s.allocated + 1, anonymousId := s.anonymousId + 1 }.setCall c
      (.created (anonymousName (s.anonymousId + 1)) s.allocated)

/-- `g_tree_insert` under the lock, with `region_dealloc` of the value that was there. -/
def insert (key : List Char) (monitor : ℕ) : Registration γ :=
  { s with
    regions := update s.regions key (some monitor)
    freed := (s.regions key).toList ++ s.freed }.setCall c (.returned key monitor)

@[simp] theorem insert_calls_self (key : List Char) (monitor : ℕ) :
    (s.insert c key monitor).calls c = .returned key monitor :=
  update_self _ _ _

theorem insert_calls_of_ne {c' : γ} (h : c' ≠ c) (key : List Char) (monitor : ℕ) :
    (s.insert c key monitor).calls c' = s.calls c' :=
  update_of_ne h _ _

@[simp] theorem insert_regions (key : List Char) (monitor : ℕ) :
    (s.insert c key monitor).regions = update s.regions key (some monitor) := rfl

@[simp] theorem insert_freed (key : List Char) (monitor : ℕ) :
    (s.insert c key monitor).freed = (s.regions key).toList ++ s.freed := rfl

/-- One step of a call, which does nothing where the call is not at that step. -/
def exec (arg : γ → RegionName) : γ × RegisterStep → Registration γ
  | (c, .lookup) =>
    match s.calls c with
    | .called => s.lookup c (arg c)
    | _ => s
  | (c, .create) =>
    match s.calls c with
    | .missed key => s.create c key
    | _ => s
  | (c, .insert) =>
    match s.calls c with
    | .created key monitor => s.insert c key monitor
    | _ => s

end Registration

/-! ## Consistency -/

/-- Two calls have the same name, up to the characters that count. -/
def SameName (a b : RegionName) : Prop :=
  ∃ name name', a = .text name ∧ b = .text name' ∧ name ≠ [] ∧ name' ≠ [] ∧
    name.take (monitorNameMax - 1) = name'.take (monitorNameMax - 1)

/-- The calls of an allowed name do not return `NULL`, all calls of one name have returned the same monitor, and what a
call has returned is in the tree and has not been deallocated. -/
structure Consistent (arg : γ → RegionName) (s : Registration γ) : Prop where
  allowed : ∀ c, (arg c).isForbidden = false → s.calls c ≠ .refused
  same : ∀ c c' r r', SameName (arg c) (arg c') → (s.calls c).result = some r → (s.calls c').result = some r' →
    r.2 = r'.2
  stored : ∀ c r, (s.calls c).result = some r → s.regions r.1 = some r.2
  live : ∀ c r, (s.calls c).result = some r → r.2 ∉ s.freed

/-- A step that inserts a monitor finds no monitor of that name in the tree: no other call has inserted one since this
call has looked the name up. -/
def InsertsNew (s : Registration γ) : γ × RegisterStep → Prop
  | (c, .insert) =>
    match s.calls c with
    | .created key _ => s.regions key = none
    | _ => True
  | _ => True

theorem strncaseEq_congr {a b b' : List Char} {n : ℕ} (h : b.take n = b'.take n) :
    strncaseEq a b n = strncaseEq a b' n := by
  rw [strncaseEq, strncaseEq, h]

theorem SameName.key {a b : RegionName} (h : SameName a b) : ∃ key, a.key = some key ∧ b.key = some key := by
  obtain ⟨name, name', rfl, rfl, hne, hne', htake⟩ := h
  have hkey : regionKey name = regionKey name' := by
    rw [regionKey, regionKey, strncaseEq_congr htake]
    split
    · rfl
    · exact htake
  cases name with
  | nil => exact absurd rfl hne
  | cons x xs =>
    cases name' with
    | nil => exact absurd rfl hne'
    | cons y ys => exact ⟨_, rfl, congrArg some hkey.symm⟩

/-! ## The invariant -/

/-- The key that a call has come with is the one that its name has, its monitor has been allocated, and only a
forbidden name is refused. -/
def RegisterCall.Keyed (allocated : ℕ) (name : RegionName) : RegisterCall → Prop
  | .called => True
  | .refused => name.isForbidden = true
  | .missed key => key = name.key
  | .created key monitor | .returned key monitor => (∀ key', name.key = some key' → key = key') ∧ monitor < allocated

/-- As long as new names are inserted only: nothing has been freed, what has been returned is in the tree, and what is
in the tree has been returned. -/
structure Good (arg : γ → RegionName) (s : Registration γ) : Prop where
  keyed : ∀ c, (s.calls c).Keyed s.allocated (arg c)
  freed : s.freed = []
  stored : ∀ c r, (s.calls c).result = some r → s.regions r.1 = some r.2
  returned : ∀ key monitor, s.regions key = some monitor → ∃ c, s.calls c = .returned key monitor

section Steps

variable {arg : γ → RegionName} {s : Registration γ} {c : γ}

omit [DecidableEq γ] in
theorem Good.init : Good arg {} where
  keyed := fun _ => trivial
  freed := rfl
  stored := nofun
  returned := nofun

omit [DecidableEq γ] in
theorem RegisterCall.Keyed.mono {call : RegisterCall} {name : RegionName} {n m : ℕ} (h : call.Keyed n name)
    (hnm : n ≤ m) : call.Keyed m name := by
  cases call with
  | called => trivial
  | missed key => exact h
  | created key monitor => exact ⟨h.1, h.2.trans_le hnm⟩
  | returned key monitor => exact ⟨h.1, h.2.trans_le hnm⟩
  | refused => exact h

omit [DecidableEq γ] in
theorem Good.allocate (h : Good arg s) (n : ℕ) :
    Good arg { s with allocated := s.allocated + 1, anonymousId := n } where
  keyed := fun c => (h.keyed c).mono (Nat.le_succ _)
  freed := h.freed
  stored := h.stored
  returned := h.returned

theorem Good.setCall (h : Good arg s) (hc : (s.calls c).result = none) {call : RegisterCall}
    (hkeyed : call.Keyed s.allocated (arg c)) (hresult : ∀ r, call.result = some r → s.regions r.1 = some r.2) :
    Good arg (s.setCall c call) where
  keyed := by
    intro c'
    obtain rfl | hne := eq_or_ne c' c
    · rw [Registration.setCall_calls_self]
      exact hkeyed
    · rw [Registration.setCall_calls_of_ne _ _ hne]
      exact h.keyed c'
  freed := h.freed
  stored := by
    intro c' r hr
    obtain rfl | hne := eq_or_ne c' c
    · rw [Registration.setCall_calls_self] at hr
      exact hresult r hr
    · rw [Registration.setCall_calls_of_ne _ _ hne] at hr
      exact h.stored c' r hr
  returned := by
    intro key monitor hkey
    obtain ⟨c', hc'⟩ := h.returned key monitor hkey
    have hne : c' ≠ c := by
      rintro rfl
      rw [hc'] at hc
      exact nomatch hc
    exact ⟨c', by rw [Registration.setCall_calls_of_ne _ _ hne, hc']⟩

theorem Good.lookup (h : Good arg s) (hc : s.calls c = .called) : Good arg (s.lookup c (arg c)) := by
  have hnone : (s.calls c).result = none := by rw [hc]; rfl
  rw [Registration.lookup]
  split
  · exact h.setCall hnone ‹_› nofun
  · split
    · exact h.setCall hnone (Eq.symm ‹_›) nofun
    · rename_i key hkey
      split
      · rename_i monitor hfound
        obtain ⟨c', hc'⟩ := h.returned key monitor hfound
        refine h.setCall hnone ⟨fun key' hkey' => ?_, ?_⟩ ?_
        · exact Option.some.inj (hkey.symm.trans hkey')
        · have hkeyed := h.keyed c'
          rw [hc'] at hkeyed
          exact hkeyed.2
        · rintro r ⟨⟩
          exact hfound
      · exact h.setCall hnone hkey.symm nofun

theorem Good.create (h : Good arg s) {key : Option (List Char)} (hc : s.calls c = .missed key) :
    Good arg (s.create c key) := by
  have hnone : (s.calls c).result = none := by rw [hc]; rfl
  have hkeyed : key = (arg c).key := by
    have := h.keyed c
    rwa [hc] at this
  cases key with
  | none =>
    refine (h.allocate _).setCall hnone ⟨fun key' hkey' => ?_, Nat.lt_succ_self _⟩ nofun
    exact nomatch hkeyed.trans hkey'
  | some key =>
    refine (h.allocate _).setCall hnone ⟨fun key' hkey' => ?_, Nat.lt_succ_self _⟩ nofun
    exact Option.some.inj (hkeyed.trans hkey')

theorem Good.insert (h : Good arg s) {key : List Char} {monitor : ℕ} (hc : s.calls c = .created key monitor)
    (hnew : s.regions key = none) : Good arg (s.insert c key monitor) where
  keyed := by
    intro c'
    obtain rfl | hne := eq_or_ne c' c
    · have hkeyed := h.keyed c'
      rw [hc] at hkeyed
      rw [Registration.insert_calls_self]
      exact hkeyed
    · rw [Registration.insert_calls_of_ne _ _ hne]
      exact h.keyed c'
  freed := by
    rw [Registration.insert_freed, hnew, h.freed]
    rfl
  stored := by
    intro c' r hr
    rw [Registration.insert_regions]
    obtain rfl | hne := eq_or_ne c' c
    · rw [Registration.insert_calls_self] at hr
      obtain rfl := Option.some.inj hr
      exact update_self _ _ _
    · rw [Registration.insert_calls_of_ne _ _ hne] at hr
      have hstored := h.stored c' r hr
      -- the name is new, so that it is not that of another call that has returned
      have hother : r.1 ≠ key := fun heq => nomatch (heq ▸ hstored).symm.trans hnew
      rw [update_of_ne hother, hstored]
  returned := by
    intro key' monitor' hkey
    rw [Registration.insert_regions] at hkey
    obtain rfl | hother := eq_or_ne key' key
    · rw [update_self] at hkey
      exact ⟨c, by rw [Registration.insert_calls_self, Option.some.inj hkey]⟩
    · rw [update_of_ne hother] at hkey
      obtain ⟨c', hc'⟩ := h.returned key' monitor' hkey
      have hne : c' ≠ c := by
        rintro rfl
        exact nomatch hc'.symm.trans hc
      exact ⟨c', by rw [Registration.insert_calls_of_ne _ _ hne, hc']⟩

theorem Good.exec (h : Good arg s) (e : γ × RegisterStep) (hnew : InsertsNew s e) : Good arg (s.exec arg e) := by
  obtain ⟨c, step⟩ := e
  cases step with
  | lookup =>
    rw [Registration.exec]
    split
    · exact h.lookup ‹_›
    · exact h
  | create =>
    rw [Registration.exec]
    split
    · exact h.create ‹_›
    · exact h
  | insert =>
    rw [Registration.exec]
    split
    · rename_i key monitor hc
      rw [InsertsNew, hc] at hnew
      exact h.insert hc hnew
    · exact h

omit [DecidableEq γ] in
theorem Good.consistent (h : Good arg s) : Consistent arg s where
  allowed := by
    intro c hallowed hrefused
    have hkeyed := h.keyed c
    rw [hrefused] at hkeyed
    exact nomatch hkeyed.symm.trans hallowed
  same := by
    intro c c' r r' hsame hr hr'
    obtain ⟨key, hkey, hkey'⟩ := hsame.key
    have hfst : ∀ c r, (s.calls c).result = some r → (arg c).key = some key → r.1 = key := by
      intro c r hr hkey
      have hkeyed := h.keyed c
      cases hcall : s.calls c with
      | returned k m =>
        rw [hcall] at hr hkeyed
        obtain rfl := Option.some.inj hr
        exact hkeyed.1 key hkey
      | _ => rw [hcall] at hr; exact nomatch hr
    have heq : r.1 = r'.1 := (hfst c r hr hkey).trans (hfst c' r' hr' hkey').symm
    exact Option.some.inj (((h.stored c r hr).symm.trans (congrArg s.regions heq)).trans (h.stored c' r' hr'))
  stored := h.stored
  live := fun _ _ _ => by rw [h.freed]; exact List.not_mem_nil

theorem Good.insertsNew (h : Good arg s) (e : γ × RegisterStep) (hcons : Consistent arg (s.exec arg e)) :
    InsertsNew s e := by
  obtain ⟨c, step⟩ := e
  cases step with
  | lookup => trivial
  | create => trivial
  | insert =>
    rw [InsertsNew]
    split
    · rename_i key monitor hc
      cases hold : s.regions key with
      | none => rfl
      | some old =>
        obtain ⟨c', hc'⟩ := h.returned key old hold
        have hne : c' ≠ c := by
          rintro rfl
          exact nomatch hc'.symm.trans hc
        have hexec : s.exec arg (c, .insert) = s.insert c key monitor := by rw [Registration.exec, hc]
        rw [hexec] at hcons
        refine absurd ?_ (hcons.live c' (key, old) ?_)
        · rw [Registration.insert_freed, hold]
          exact List.mem_cons_self
        · rw [Registration.insert_calls_of_ne _ _ hne, hc']
          rfl
    · trivial

/-- **Concurrent registration is consistent exactly when no call inserts a name that another call has inserted since it
was looked up**, in every interleaving of the steps of any calls. -/
theorem registration_consistent_iff (arg : γ → RegionName) (steps : List (γ × RegisterStep)) :
    Along (fun s e => Registration.exec s arg e) (fun s e => Consistent arg (s.exec arg e)) {} steps ↔
      Along (fun s e => Registration.exec s arg e) InsertsNew {} steps :=
  Along.congr (I := Good arg) (R := fun _ => True) (fun _ e h _ hnew => h.exec e hnew)
    (fun _ e h _ => ⟨h.insertsNew e, fun hnew => (h.exec e hnew).consistent⟩) _ steps Good.init fun _ _ => trivial

end Steps

/-- The call of `talp_init`, and two threads that register the same name. -/
def twoRegister : Fin 3 → RegionName := ![.text globalRegionName, .text ['r'], .text ['r']]

/-- Both threads look the name up before either inserts it: the monitor that the first one has returned is freed. -/
theorem first_monitor_freed :
    ¬ Along (fun s e => Registration.exec s twoRegister e) (fun s e => Consistent twoRegister (s.exec twoRegister e)) {}
      [(0, .lookup), (0, .create), (0, .insert), (1, .lookup), (2, .lookup), (1, .create), (1, .insert), (2, .create),
        (2, .insert)] := by
  rintro ⟨-, -, -, -, -, -, -, -, hlast, -⟩
  exact hlast.live 1 (['r'], 1) (by decide) (by decide)

end Dlb.Talp

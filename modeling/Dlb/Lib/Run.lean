import Mathlib.Logic.Relation

/-!
# Runs of a transition system

A run is a finite chain of steps; `Run step s t` says that one leads from `s` to `t`. An invariant is proved once per
step and holds along every run (`Run.invariant`).

Where the steps are a function of the state and of an event, a run is a fold over the list of its events, and
`Along next P s events` says that `P` holds of every event at the state in which it happens.
-/

namespace Lib

section Relations

variable {S : Type*} {step : S → S → Prop} {P : S → Prop}

abbrev Run (step : S → S → Prop) : S → S → Prop := Relation.ReflTransGen step

theorem Run.invariant {s t : S} (h : Run step s t) (h0 : P s) (hs : ∀ a b, P a → step a b → P b) : P t := by
  induction h with
  | refl => exact h0
  | tail _ hstep ih => exact hs _ _ ih hstep

end Relations

section Events

variable {S E : Type*} {next : S → E → S} {P Q : S → E → Prop} {I : S → Prop}

/-- `P` holds of every event of the run from `s`, at the state in which it happens. -/
def Along (next : S → E → S) (P : S → E → Prop) : S → List E → Prop
  | _, [] => True
  | s, e :: rest => P s e ∧ Along next P (next s e) rest

/-- Properties that agree on every event agree along every run, where an invariant of the run and a property of its
events may help. An event only has to keep the invariant if it has the properties. -/
theorem Along.congr {R : E → Prop} (hI : ∀ s e, I s → R e → Q s e → I (next s e))
    (h : ∀ s e, I s → R e → (P s e ↔ Q s e)) :
    ∀ (s : S) (events : List E), I s → (∀ e ∈ events, R e) → (Along next P s events ↔ Along next Q s events)
  | _, [], _, _ => Iff.rfl
  | s, e :: rest, hs, hR => by
    have he : R e := hR e List.mem_cons_self
    refine (and_congr_left fun _ => h s e hs he).trans (and_congr_right fun hq => ?_)
    exact Along.congr hI h (next s e) rest (hI s e hs he hq) fun e' he' => hR e' (List.mem_cons_of_mem e he')

theorem Along.mono (h : ∀ s e, Q s e → P s e) : ∀ (s : S) (events : List E), Along next Q s events → Along next P s events
  | _, [], _ => trivial
  | s, e :: rest, hq => ⟨h s e hq.1, Along.mono h (next s e) rest hq.2⟩

theorem Along.and : ∀ (s : S) (events : List E), Along next (fun s e => P s e ∧ Q s e) s events ↔
    Along next P s events ∧ Along next Q s events
  | _, [] => (and_self_iff (a := True)).symm
  | s, e :: rest => (and_congr_right fun _ => Along.and (next s e) rest).trans and_and_and_comm

theorem Along.congr_of {A : S → E → Prop} (hI : ∀ s e, I s → A s e → Q s e → I (next s e))
    (h : ∀ s e, I s → A s e → (P s e ↔ Q s e)) (s : S) (events : List E) (hs : I s) (hA : Along next A s events) :
    Along next P s events ↔ Along next Q s events := by
  have hiff := @Along.congr S E next (fun s e => A s e ∧ P s e) (fun s e => A s e ∧ Q s e) I (fun _ => True)
    (fun s e hs _ he => hI s e hs he.1 he.2) (fun s e hs _ => and_congr_right fun he => h s e hs he) s events hs
    fun _ _ => trivial
  rw [Along.and, Along.and] at hiff
  exact and_congr_right_iff.mp hiff hA

theorem Along.iff_forall (hframe : ∀ s e e', e' ≠ e → (P (next s e) e' ↔ P s e')) :
    ∀ (s : S) (events : List E), events.Nodup → (Along next P s events ↔ ∀ e ∈ events, P s e)
  | _, [], _ => by simp [Along]
  | s, e :: rest, hnodup => by
    obtain ⟨he, hrest⟩ := List.nodup_cons.mp hnodup
    have hne : ∀ e' ∈ rest, e' ≠ e := fun e' he' heq => he (heq ▸ he')
    rw [List.forall_mem_cons, Along, Along.iff_forall hframe _ rest hrest]
    exact and_congr_right fun _ => forall₂_congr fun e' he' => hframe s e e' (hne e' he')

/-- **The invariant rule for events.** A condition that keeps an invariant, and next to it gives a property, gives the
property along the whole run and the invariant at its end. -/
theorem Along.invariant {R : E → Prop} (hI : ∀ s e, I s → R e → Q s e → I (next s e))
    (hP : ∀ s e, I s → R e → Q s e → P s e) : ∀ (s : S) (events : List E), I s → (∀ e ∈ events, R e) →
      Along next Q s events → Along next P s events ∧ I (events.foldl next s)
  | _, [], h, _, _ => ⟨trivial, h⟩
  | s, e :: rest, h, hR, hq => by
    have he : R e := hR e List.mem_cons_self
    obtain ⟨hrest, hend⟩ := Along.invariant hI hP (next s e) rest (hI s e h he hq.1)
      (fun e' he' => hR e' (List.mem_cons_of_mem e he')) hq.2
    exact ⟨⟨hP s e h he hq.1, hrest⟩, hend⟩

theorem Along.invariant_of {A : S → E → Prop} (hI : ∀ s e, I s → A s e → Q s e → I (next s e))
    (hP : ∀ s e, I s → A s e → Q s e → P s e) (s : S) (events : List E) (hs : I s) (hA : Along next A s events)
    (hQ : Along next Q s events) : Along next P s events ∧ I (events.foldl next s) :=
  Along.invariant (R := fun _ => True) (Q := fun s e => A s e ∧ Q s e) (fun s e hs _ he => hI s e hs he.1 he.2)
    (fun s e hs _ he => hP s e hs he.1 he.2) s events hs (fun _ _ => trivial) ((Along.and s events).mpr ⟨hA, hQ⟩)

theorem Along.append : ∀ (s : S) (events more : List E),
    Along next P s (events ++ more) ↔ Along next P s events ∧ Along next P (events.foldl next s) more
  | _, [], _ => by simp [Along]
  | s, e :: rest, more => by rw [List.cons_append, Along, Along, List.foldl_cons, Along.append, and_assoc]

instance decidableAlong [∀ s e, Decidable (P s e)] : ∀ (s : S) (events : List E), Decidable (Along next P s events)
  | _, [] => inferInstanceAs (Decidable True)
  | s, e :: rest =>
    have := decidableAlong (next s e) rest
    inferInstanceAs (Decidable (P s e ∧ Along next P (next s e) rest))

end Events

end Lib

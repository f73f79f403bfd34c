import Mathlib.Logic.Basic

/-!
# Postconditions of computations that may not return

`Post P x` says that whatever `x` returns meets `P`. A proof follows the computation: a returned value
(`Post.of_some`), a sequence (`Post.bind`).
-/

namespace Lib

variable {α β : Type*} {P : α → Prop} {Q : β → Prop} {x : Option α}

/-- Whatever `x` returns meets `P`. -/
def Post (P : α → Prop) (x : Option α) : Prop := ∀ a, x = some a → P a

theorem Post.of_some {a : α} (h : P a) : Post P (some a) := by
  rintro _ ⟨⟩
  exact h

theorem Post.bind {f : α → Option β} (h : Post P x) (hf : ∀ a, P a → Post Q (f a)) : Post Q (x.bind f) := by
  intro b hb
  obtain ⟨a, ha, hab⟩ := Option.bind_eq_some_iff.mp hb
  exact hf a (h a ha) b hab

theorem Post.mono {P' : α → Prop} (h : Post P x) (himp : ∀ a, P a → P' a) : Post P' x :=
  fun a ha => himp a (h a ha)

theorem Post.trivial (x : Option α) : Post (fun _ => True) x := fun _ _ => True.intro

end Lib

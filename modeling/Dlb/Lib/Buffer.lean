import Mathlib.Data.Nat.Notation
import Mathlib.Logic.Function.Basic

/-!
# Arrays whose bounds are checked

A `Buffer` has a size, and a read or a write beyond it has no result. So a computation on buffers that returns has made
no access out of bounds.
-/

namespace Lib

/-- An array of `size` cells. -/
structure Buffer (α : Type*) where
  size : ℕ
  cells : ℕ → α

namespace Buffer

variable {α : Type*}

def read (b : Buffer α) (i : ℕ) : Option α := if i < b.size then some (b.cells i) else none

def write (b : Buffer α) (i : ℕ) (v : α) : Option (Buffer α) :=
  if i < b.size then some ⟨b.size, Function.update b.cells i v⟩ else none

variable {n i : ℕ} {cells : ℕ → α}

theorem read_of_lt (h : i < n) : (⟨n, cells⟩ : Buffer α).read i = some (cells i) := if_pos h

theorem write_of_lt (h : i < n) (v : α) :
    (⟨n, cells⟩ : Buffer α).write i v = some ⟨n, Function.update cells i v⟩ := if_pos h

end Buffer

end Lib

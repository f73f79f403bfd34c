import Mathlib.Data.Int.Order.Basic
import Mathlib.Algebra.Group.Nat.Defs

/-!
# Process ids, result codes and unsigned arithmetic

What every module of the library shares: `pid_t`, the codes of `dlb_errors.h`, `unsigned int` additions, and the
`ensure` macro of `debug.h`, which aborts in a debug build and is nothing in a release build.
-/

namespace Dlb

/-- `pid_t`. The id `0` is `NOBODY`. -/
abbrev Pid := ℕ

/-- The result codes of `dlb_errors.h`. -/
inductive DlbError where
  | noupdt | noted | success
  | errUnknown | errNoinit | errInit | errDisbld | errNoshmem | errNoproc | errPdirty | errPerm | errTimeout
  | errNocbk | errNoent | errNocomp | errReqst | errNomem | errNopol | errNotalp | errNolewi | errNomngo
deriving DecidableEq, Repr

def DlbError.code : DlbError → ℤ
  | .noupdt => 2
  | .noted => 1
  | .success => 0
  | .errUnknown => -1
  | .errNoinit => -2
  | .errInit => -3
  | .errDisbld => -4
  | .errNoshmem => -5
  | .errNoproc => -6
  | .errPdirty => -7
  | .errPerm => -8
  | .errTimeout => -9
  | .errNocbk => -10
  | .errNoent => -11
  | .errNocomp => -12
  | .errReqst => -13
  | .errNomem => -14
  | .errNopol => -15
  | .errNotalp => -16
  | .errNolewi => -17
  | .errNomngo => -18

/-- Addition of two `unsigned int`. -/
def addU32 (a b : ℕ) : ℕ := (a + b) % 2 ^ 32

theorem addU32_of_lt {a b : ℕ} (h : a + b < 2 ^ 32) : addU32 a b = a + b := Nat.mod_eq_of_lt h

/-- Subtraction of two `unsigned int`. -/
def subU32 (a b : ℕ) : ℕ := (a + 2 ^ 32 - b) % 2 ^ 32

theorem subU32_of_le {a b : ℕ} (h : b ≤ a) (ha : a < 2 ^ 32) : subU32 a b = a - b := by
  unfold subU32
  omega

/-- The difference of two `unsigned int`, converted to `int`. -/
def subToInt (a b : ℕ) : ℤ := Int.bmod ((a : ℤ) - b) (2 ^ 32)

theorem subToInt_of_lt {a b : ℕ} (h1 : a < b + 2 ^ 31) (h2 : b < a + 2 ^ 31) : subToInt a b = (a : ℤ) - b := by
  unfold subToInt
  rw [Int.bmod_eq_of_le] <;> omega

/-- `ensure`: a failed condition aborts a debug build (`none`). -/
def ensure (debug : Bool) (cond : Prop) [Decidable cond] : Option Unit :=
  if debug ∧ ¬cond then none else some ()

@[simp] theorem ensure_of {debug : Bool} {cond : Prop} [Decidable cond] (h : cond) :
    ensure debug cond = some () := by simp [ensure, h]

@[simp] theorem ensure_release {cond : Prop} [Decidable cond] : ensure false cond = some () := by simp [ensure]

end Dlb

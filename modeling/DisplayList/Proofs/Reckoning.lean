import DisplayList.Arithmetic
import Mathlib.Algebra.Group.Nat.Defs

/-!
# Reckoning without wrapping

A way to reckon is sound if it gives every result that fits. The plain way is, and so is the exact
way, which gives nothing else: it stops at a result that does not fit. So where the two come to the
same, nothing wraps.
-/
namespace DisplayList

namespace Arithmetic

/-- A way to reckon that differs from the plain one at most in what does not fit. -/
structure Sound {ε : Type} (ar : Arithmetic (Except ε)) : Prop where
  addSizes : ∀ {a b}, a + b < 2 ^ 64 → ar.addSizes a b = .ok (a + b)
  subSizes : ∀ {a b}, b ≤ a → ar.subSizes a b = .ok (a - b)
  mulSizes : ∀ {a b}, a * b < 2 ^ 64 → ar.mulSizes a b = .ok (a * b)
  addWords : ∀ {v w}, v.toNat + w.toNat < 2 ^ 32 → ar.addWords v w = .ok (v + w)
  subWords : ∀ {v w}, w ≤ v → ar.subWords v w = .ok (v - w)
  mulWords : ∀ {v w}, v.toNat * w.toNat < 2 ^ 32 → ar.mulWords v w = .ok (v * w)
  advance : ∀ {v n}, v.toNat + n < 2 ^ 32 → ar.advance v n = .ok (.ofNat (v.toNat + n))

theorem sound_plain {ε : Type} : (plain : Arithmetic (Except ε)).Sound where
  addSizes _ := rfl
  subSizes _ := rfl
  mulSizes _ := rfl
  addWords _ := rfl
  subWords _ := rfl
  mulWords _ := rfl
  advance {v n} h := by
    rw [plain_advance, Nat.min_eq_left (by omega)]
    rfl

end Arithmetic

/-- Why an exact computation gives nothing: it fails as it would anyway, or a result does not
fit. -/
inductive Stop (ε : Type)
  | failed (e : ε)
  | overflow
  deriving DecidableEq, Repr

namespace Exact

variable {ε α : Type}

/-- A computation without arithmetic. -/
def plain (x : Except ε α) : Except (Stop ε) α :=
  x.mapError .failed

/-- A result if it fits. -/
def given (fits : Prop) [Decidable fits] (a : α) : Except (Stop ε) α :=
  if fits then .ok a else .error .overflow

/-- Looks at every sum, difference and product before it goes on with it. -/
def arithmetic : Arithmetic (Except (Stop ε)) where
  addSizes a b := given (a + b < 2 ^ 64) (a + b)
  subSizes a b := given (b ≤ a) (a - b)
  mulSizes a b := given (a * b < 2 ^ 64) (a * b)
  addWords a b := given (a.toNat + b.toNat < 2 ^ 32) (a + b)
  subWords a b := given (b ≤ a) (a - b)
  mulWords a b := given (a.toNat * b.toNat < 2 ^ 32) (a * b)
  advance a n := given (a.toNat + n < 2 ^ 32) (.ofNat (a.toNat + n))

theorem sound_arithmetic : (arithmetic : Arithmetic (Except (Stop ε))).Sound where
  addSizes h := if_pos h
  subSizes h := if_pos h
  mulSizes h := if_pos h
  addWords h := if_pos h
  subWords h := if_pos h
  mulWords h := if_pos h
  advance h := if_pos h

end Exact

end DisplayList

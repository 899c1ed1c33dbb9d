/-!
# Reckoning with sizes and words

Sizes have 64 bits and words have 32. What is reckoned with them is written once, over any
way to reckon, and the way decides what becomes of a result that does not fit. In the plain
one sizes are natural numbers and words wrap.
-/
namespace DisplayList

/-- A way to reckon with sizes and words. -/
structure Arithmetic (M : Type → Type) where
  addSizes : Nat → Nat → M Nat
  subSizes : Nat → Nat → M Nat
  mulSizes : Nat → Nat → M Nat
  addWords : UInt32 → UInt32 → M UInt32
  subWords : UInt32 → UInt32 → M UInt32
  mulWords : UInt32 → UInt32 → M UInt32
  /-- The word a number of places further on, held at the greatest word. -/
  advance : UInt32 → Nat → M UInt32

namespace Arithmetic

variable {M : Type → Type}

/-- Sizes without an end, and words that wrap. -/
def plain [Pure M] : Arithmetic M where
  addSizes a b := pure (a + b)
  subSizes a b := pure (a - b)
  mulSizes a b := pure (a * b)
  addWords a b := pure (a + b)
  subWords a b := pure (a - b)
  mulWords a b := pure (a * b)
  advance a n := pure (.ofNat (min (a.toNat + n) 4294967295))

section Plain

variable [Pure M] (a b n : Nat) (v w : UInt32)

@[simp] theorem plain_addSizes : (plain : Arithmetic M).addSizes a b = pure (a + b) := rfl

@[simp] theorem plain_subSizes : (plain : Arithmetic M).subSizes a b = pure (a - b) := rfl

@[simp] theorem plain_mulSizes : (plain : Arithmetic M).mulSizes a b = pure (a * b) := rfl

@[simp] theorem plain_addWords : (plain : Arithmetic M).addWords v w = pure (v + w) := rfl

@[simp] theorem plain_subWords : (plain : Arithmetic M).subWords v w = pure (v - w) := rfl

@[simp] theorem plain_mulWords : (plain : Arithmetic M).mulWords v w = pure (v * w) := rfl

@[simp] theorem plain_advance :
    (plain : Arithmetic M).advance v n = pure (.ofNat (min (v.toNat + n) 4294967295)) := rfl

end Plain

end Arithmetic

end DisplayList

/-!
# Three of a kind

A triangle of slots, of vertex indices, of texture coordinates or of corners: the
same three positions, filled differently along the way from a command to a face.
-/
namespace DisplayList

/-- Three members in order. -/
structure Triangle (α : Type) where
  a : α
  b : α
  c : α
  deriving DecidableEq, Repr, Inhabited

namespace Triangle

/-- The three members in order. -/
def toList (t : Triangle α) : List α :=
  [t.a, t.b, t.c]

/-- Treats each member alike. -/
def map (f : α → β) (t : Triangle α) : Triangle β :=
  ⟨f t.a, f t.b, f t.c⟩

/-- Treats the members in order; if one of them fails, that is the failure. -/
def mapM {M : Type → Type} [Monad M] (f : α → M β) (t : Triangle α) : M (Triangle β) := do
  let a ← f t.a
  let b ← f t.b
  let c ← f t.c
  return ⟨a, b, c⟩

@[simp] theorem length_toList (t : Triangle α) : t.toList.length = 3 := rfl

@[simp] theorem toList_map (f : α → β) (t : Triangle α) :
    (t.map f).toList = t.toList.map f := rfl

end Triangle

end DisplayList

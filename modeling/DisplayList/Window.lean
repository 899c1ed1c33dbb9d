import DisplayList.Arithmetic
import DisplayList.Triangle
import DisplayList.Diagnostic

/-!
# The vertex window

Faces name vertices by slot, and 32 slots are in view at a time. A load fills slots
with consecutive vertices and stamps them with the epoch of the batch that is open;
a face may only use slots that were stamped in its own batch's epoch.
-/
namespace DisplayList

/-- The vertex in a slot and the epoch in which it was loaded. -/
structure WindowEntry where
  vertex : UInt32
  epoch : UInt32
  deriving DecidableEq, Repr

/-- A slot that a load left without a vertex. -/
inductive SkippedSlot
  /-- The vertex would be past the end of the store; the slot is cleared. -/
  | overflow (slot : Nat) (vertex : UInt32)
  /-- There is no such slot. -/
  | outOfWindow (slot : Nat)
  deriving DecidableEq, Repr

/-- How a load's skipped slot is reported for the command at `command`. -/
def SkippedSlot.diagnostic (command : Nat) : SkippedSlot → Diagnostic
  | overflow slot vertex => .indexOverflow command slot vertex
  | outOfWindow slot => .slotOutOfWindow command slot

/-- The 32 slots and what they hold. -/
structure VertexWindow where
  slots : Vector (Option WindowEntry) 32
  deriving DecidableEq, Repr

namespace VertexWindow

/-- No slot holds a vertex. -/
def empty : VertexWindow :=
  ⟨Vector.replicate 32 none⟩

instance : Inhabited VertexWindow := ⟨empty⟩

/-- What a slot holds; beyond the window there is nothing. -/
def get? (w : VertexWindow) (slot : Nat) : Option WindowEntry :=
  w.slots[slot]?.join

/-- Fills or clears a slot of the window; beyond it nothing changes. -/
def put (w : VertexWindow) (slot : Nat) (entry : Option WindowEntry) : VertexWindow :=
  ⟨w.slots.setIfInBounds slot entry⟩

/-- The index of the `n`-th vertex from `base`, held at the greatest index there is. -/
def nthFrom (base : UInt32) (n : Nat) : UInt32 :=
  Id.run (Arithmetic.plain.advance base n)

/-- Loads one slot and tells if it was left without a vertex. -/
def loadSlot (w : VertexWindow) (vertexCount : Nat) (epoch : UInt32) (slot : Nat)
    (vertex : UInt32) : VertexWindow × Option SkippedSlot :=
  if 32 ≤ slot then (w, some (.outOfWindow slot))
  else if vertex.toNat < vertexCount then (w.put slot (some ⟨vertex, epoch⟩), none)
  else (w.put slot none, some (.overflow slot vertex))

section Reckoned

variable {M : Type → Type} [Monad M] (ar : Arithmetic M)

/-- Loads the `n`-th slot of a load after those before it. -/
def loadNextBy (start : Nat) (base : UInt32) (vertexCount : Nat) (epoch : UInt32)
    (before : VertexWindow × Array SkippedSlot) (n : Nat) :
    M (VertexWindow × Array SkippedSlot) := do
  let vertex ← ar.advance base n
  match before with
  | (w, skipped) =>
    let (w, skip) := w.loadSlot vertexCount epoch (start + n) vertex
    return (w, skip.elim skipped skipped.push)

/-- Loads `count` slots from `start` on with the vertices from `base` on, and lists the
slots left without one. -/
def loadBy (w : VertexWindow) (start count : Nat) (base : UInt32) (vertexCount : Nat)
    (epoch : UInt32) : M (VertexWindow × List SkippedSlot) := do
  let stop ← ar.addSizes start count
  let (loaded, skipped) ← (List.range (stop - start)).foldlM
    (loadNextBy ar start base vertexCount epoch) (w, #[])
  return (loaded, skipped.toList)

end Reckoned

def loadNext (start : Nat) (base : UInt32) (vertexCount : Nat) (epoch : UInt32)
    (before : VertexWindow × Array SkippedSlot) (n : Nat) : VertexWindow × Array SkippedSlot :=
  Id.run (loadNextBy .plain start base vertexCount epoch before n)

def load (w : VertexWindow) (start count : Nat) (base : UInt32) (vertexCount : Nat)
    (epoch : UInt32) : VertexWindow × List SkippedSlot :=
  Id.run (w.loadBy .plain start count base vertexCount epoch)

theorem nthFrom_eq (base : UInt32) (n : Nat) :
    nthFrom base n = .ofNat (min (base.toNat + n) 4294967295) := rfl

theorem loadNext_eq (start : Nat) (base : UInt32) (vertexCount : Nat) (epoch : UInt32)
    (before : VertexWindow × Array SkippedSlot) (n : Nat) :
    loadNext start base vertexCount epoch before n =
      let (w, skip) := before.1.loadSlot vertexCount epoch (start + n) (nthFrom base n)
      (w, skip.elim before.2 before.2.push) := rfl

theorem load_eq (w : VertexWindow) (start count : Nat) (base : UInt32) (vertexCount : Nat)
    (epoch : UInt32) : w.load start count base vertexCount epoch =
      let (loaded, skipped) :=
        (List.range count).foldl (loadNext start base vertexCount epoch) (w, #[])
      (loaded, skipped.toList) := by
  simp only [load, loadBy, Arithmetic.plain_addSizes, pure_bind, Nat.add_sub_cancel_left,
    Id.run_bind, List.idRun_foldlM]
  rfl

/-- The vertex in a slot, if it was loaded in this epoch. -/
def resolve (w : VertexWindow) (epoch : UInt32) (slot : Nat) : Except SlotFault UInt32 :=
  match w.get? slot with
  | none => .error .unset
  | some entry => if entry.epoch = epoch then .ok entry.vertex else .error .stale

/-- The vertices of a triangle of slots, or the first slot without one and why. -/
def resolveTriangle (w : VertexWindow) (epoch : UInt32) (slots : Triangle Nat) :
    Except (Nat × SlotFault) (Triangle UInt32) :=
  slots.mapM fun slot => (w.resolve epoch slot).mapError (slot, ·)

@[simp] theorem get?_empty (slot : Nat) : empty.get? slot = none := by
  simp only [get?, empty, Vector.getElem?_replicate]
  split <;> rfl

theorem get?_put (w : VertexWindow) (slot : Nat) (entry : Option WindowEntry) (s : Nat) :
    (w.put slot entry).get? s = if s = slot ∧ slot < 32 then entry else w.get? s := by
  simp only [get?, put, Vector.getElem?_setIfInBounds]
  by_cases h : slot = s
  · subst h
    by_cases hs : slot < 32 <;> simp [hs]
  · simp [h, Ne.symm h]

end VertexWindow

end DisplayList

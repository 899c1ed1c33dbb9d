import DisplayList.Journal
import DisplayList.Mesh

/-!
# From batches to meshes

A batch is placed after the highest vertex of the batches before it, so that batches
that work their way up through the store share no vertices as meshes. One that
reaches back is reported and starts at its own lowest vertex.
-/
namespace DisplayList

/-- A batch with its position and the offset due to the batches before it. -/
structure PlacedBatch where
  position : Nat
  batch : Batch
  offset : UInt32
  deriving DecidableEq, Repr

namespace PlacedBatch

/-- The mesh of a batch with faces; other batches have none. -/
def mesh? (vertices : Array Vertex) (pool : Array TexCoord) (p : PlacedBatch) : Option Mesh :=
  if p.batch.isEmpty then none else some (.ofBatch vertices pool p.offset p.batch)

/-- What there is to record about a batch: that it has no faces, or that it reaches back. -/
def entry? (p : PlacedBatch) : Option Entry :=
  match p.batch.lowest? with
  | none => some (.note (.batchSkipped p.position))
  | some lowest =>
    if lowest < p.offset then some (.problem (.nonMonotonicBatch p.position lowest p.offset))
    else none

end PlacedBatch

namespace Recording

/-- Batches with their positions and their offsets. -/
def withOffsets (bs : List Batch) (offsets : List UInt32) : List PlacedBatch :=
  (bs.zip offsets).mapIdx fun position (batch, offset) => { position, batch, offset }

section Reckoned

variable {M : Type → Type} [Monad M] (ar : Arithmetic M)

/-- The offset of each batch when `next` is due for the first: the vertex after the
highest one of the last batch with faces before it. -/
def offsetsFromBy (next : UInt32) : List Batch → M (List UInt32)
  | [] => return []
  | b :: rest => do
    let after ← (match b.highest? with
      | none => pure next
      | some highest => ar.addWords highest 1)
    return next :: (← offsetsFromBy after rest)

/-- Makes the mesh of a batch after those before it, and records what there is to record. -/
def addMeshBy (vertices : Array Vertex) (pool : Array TexCoord)
    (made : Array Mesh × Array Entry) (p : PlacedBatch) : M (Array Mesh × Array Entry) := do
  match made with
  | (meshes, entries) =>
    match p.batch.lowest? with
    | none => return (meshes, entries.push (.note (.batchSkipped p.position)))
    | some lowest =>
      let reaches := lowest < p.offset
      let offset := if reaches then lowest else p.offset
      let entries :=
        if reaches then
          entries.push (.problem (.nonMonotonicBatch p.position lowest p.offset))
        else entries
      return (meshes.push (← Mesh.ofBatchBy ar vertices pool offset p.batch), entries)

/-- The meshes of all batches with faces, and what there is to record about the batches. -/
def assembleBy (r : Recording) (vertices : Array Vertex) : M (Array Mesh × Journal) := do
  let offsets ← offsetsFromBy ar 0 r.batches.toList
  let (meshes, entries) ←
    (withOffsets r.batches.toList offsets).foldlM (addMeshBy ar vertices r.pool) (#[], #[])
  return (meshes, entries.toList)

end Reckoned

def offsetsFrom (next : UInt32) (bs : List Batch) : List UInt32 :=
  Id.run (offsetsFromBy .plain next bs)

def addMesh (vertices : Array Vertex) (pool : Array TexCoord)
    (made : Array Mesh × Array Entry) (p : PlacedBatch) : Array Mesh × Array Entry :=
  Id.run (addMeshBy .plain vertices pool made p)

def assemble (r : Recording) (vertices : Array Vertex) : Array Mesh × Journal :=
  Id.run (r.assembleBy .plain vertices)

/-- The offset of each batch. -/
def offsets (r : Recording) : List UInt32 :=
  offsetsFrom 0 r.batches.toList

/-- All batches in their places. -/
def placed (r : Recording) : List PlacedBatch :=
  withOffsets r.batches.toList r.offsets

/-- The meshes of all batches with faces. -/
def meshes (r : Recording) (vertices : Array Vertex) : Array Mesh :=
  (r.placed.filterMap (PlacedBatch.mesh? vertices r.pool)).toArray

/-- What there is to record about the placement. -/
def placementJournal (r : Recording) : Journal :=
  r.placed.filterMap PlacedBatch.entry?

@[simp] theorem offsetsFrom_nil (next : UInt32) : offsetsFrom next [] = [] := rfl

theorem offsetsFrom_cons (next : UInt32) (b : Batch) (rest : List Batch) :
    offsetsFrom next (b :: rest) = next :: offsetsFrom (b.highest?.elim next (· + 1)) rest := by
  unfold offsetsFrom
  rw [offsetsFromBy]
  cases b.highest? <;> rfl

@[simp] theorem length_offsetsFrom (next : UInt32) (bs : List Batch) :
    (offsetsFrom next bs).length = bs.length := by
  induction bs generalizing next with
  | nil => rfl
  | cons b rest ih => simp [offsetsFrom_cons, ih]

@[simp] theorem length_placed (r : Recording) : r.placed.length = r.batches.size := by
  simp [placed, withOffsets, offsets]

end Recording

end DisplayList

import DisplayList.Arithmetic
import DisplayList.Triangle
import DisplayList.Vertex

/-!
# Batches of triangles

Between two changes of material, faces are gathered into one batch. Their corners
name vertices by their place in the whole store and texture coordinates by their
place in a pool that all batches share.
-/
namespace DisplayList

/-- A corner of a face: a vertex of the store and a place in the pool of coordinates. -/
structure Corner where
  vertex : UInt32
  uv : Nat
  deriving DecidableEq, Repr

/-- The faces between two changes of material. -/
structure Batch where
  material : Nat
  epoch : UInt32
  triangles : Array (Triangle Corner) := #[]
  deriving DecidableEq, Repr

namespace Batch

/-- All corners, face by face. -/
def corners (b : Batch) : List Corner :=
  b.triangles.toList.flatMap Triangle.toList

/-- The vertices of all corners. -/
def vertices (b : Batch) : List UInt32 :=
  b.corners.map Corner.vertex

/-- The places in the pool of all corners. -/
def uvs (b : Batch) : List Nat :=
  b.corners.map Corner.uv

/-- Whether there are no faces. -/
def isEmpty (b : Batch) : Bool :=
  b.triangles.isEmpty

/-- The lowest vertex so far, once another one is used. -/
def lower (lowest : Option UInt32) (v : UInt32) : Option UInt32 :=
  some (lowest.elim v fun l => min l v)

/-- The highest vertex so far, once another one is used. -/
def raise (highest : Option UInt32) (v : UInt32) : Option UInt32 :=
  some (highest.elim v fun h => max h v)

/-- The lowest vertex that a face uses. -/
def lowest? (b : Batch) : Option UInt32 :=
  b.vertices.foldl lower none

/-- The highest vertex that a face uses. -/
def highest? (b : Batch) : Option UInt32 :=
  b.vertices.foldl raise none

@[simp] theorem length_corners (b : Batch) : b.corners.length = 3 * b.triangles.size := by
  simp [corners, List.length_flatMap, List.map_const', Nat.mul_comm]

@[simp] theorem length_vertices (b : Batch) : b.vertices.length = 3 * b.triangles.size := by
  simp [vertices]

@[simp] theorem length_uvs (b : Batch) : b.uvs.length = 3 * b.triangles.size := by
  simp [uvs]

end Batch

/-- The batches opened so far, the last one open, and the pool of coordinates. -/
structure Recording where
  batches : Array Batch := #[]
  pool : Array TexCoord := #[]
  deriving DecidableEq, Repr

namespace Recording

/-- The batch that is open; none is before the first. -/
def current? (r : Recording) : Option Batch :=
  r.batches.back?

/-- The epoch of the open batch. -/
def epoch? (r : Recording) : Option UInt32 :=
  r.current?.map Batch.epoch

section Reckoned

variable {M : Type → Type} [Monad M] (ar : Arithmetic M)

/-- Closes the open batch, if there is one, and opens another, whose place comes with it. -/
def openBatchBy (r : Recording) (material : Nat) (epoch : UInt32) : M (Recording × Nat) := do
  let batches := r.batches.push { material, epoch }
  return ({ r with batches }, ← ar.subSizes batches.size 1)

/-- Adds coordinates to a pool, with their place in it. -/
def pushUvBy (pool : Array TexCoord) (uv : TexCoord) : M (Array TexCoord × Nat) := do
  let pool := pool.push uv
  return (pool, ← ar.subSizes pool.size 1)

/-- Adds a face to the open batch and its coordinates to the pool; nothing happens
while no batch is open. -/
def addTriangleBy (r : Recording) (vertices : Triangle UInt32) (uvs : Triangle TexCoord) :
    M Recording := do
  match r with
  | ⟨batches, pool⟩ =>
    if batches.isEmpty then return ⟨batches, pool⟩
    else
      let last ← ar.subSizes batches.size 1
      let (pool, a) ← pushUvBy ar pool uvs.a
      let (pool, b) ← pushUvBy ar pool uvs.b
      let (pool, c) ← pushUvBy ar pool uvs.c
      let face : Triangle Corner := ⟨⟨vertices.a, a⟩, ⟨vertices.b, b⟩, ⟨vertices.c, c⟩⟩
      return ⟨batches.modify last fun b => { b with triangles := b.triangles.push face }, pool⟩

end Reckoned

def openBatch (r : Recording) (material : Nat) (epoch : UInt32) : Recording :=
  (Id.run (r.openBatchBy .plain material epoch)).1

def addTriangle (r : Recording) (vertices : Triangle UInt32) (uvs : Triangle TexCoord) :
    Recording :=
  Id.run (r.addTriangleBy .plain vertices uvs)

theorem openBatch_eq (r : Recording) (material : Nat) (epoch : UInt32) :
    r.openBatch material epoch = { r with batches := r.batches.push { material, epoch } } := rfl

theorem addTriangle_eq (batches : Array Batch) (pool : Array TexCoord) (vertices : Triangle UInt32)
    (uvs : Triangle TexCoord) : addTriangle ⟨batches, pool⟩ vertices uvs =
      if batches.isEmpty then ⟨batches, pool⟩
      else
        let n := pool.size
        let face : Triangle Corner :=
          ⟨⟨vertices.a, n⟩, ⟨vertices.b, n + 1⟩, ⟨vertices.c, n + 2⟩⟩
        ⟨batches.modify (batches.size - 1) fun b => { b with triangles := b.triangles.push face },
          ((pool.push uvs.a).push uvs.b).push uvs.c⟩ := by
  cases h : batches.isEmpty <;> simp [addTriangle, addTriangleBy, pushUvBy, h]

end Recording

end DisplayList

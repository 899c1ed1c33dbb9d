import DisplayList.Batch
import DisplayList.Model.Basic

/-!
# Meshes

A mesh is a batch cut loose from the vertex store: it has its own vertices, a run of
the store from its offset to the highest vertex used, and its faces count from there.
The vertices are filled in by two passes, one over the corners of the batch and one
over the vertices that no corner has visited.
-/
namespace DisplayList

/-- Vertices with colours and texture coordinates, and faces among them, in one material. -/
structure Mesh where
  material : Nat
  /-- The vertex of the store that comes first in the mesh. -/
  indexOffset : UInt32
  positions : Array Position := #[]
  colours : Array Colour := #[]
  uvs : Array TexCoord := #[]
  faces : Array (Triangle UInt32) := #[]
  deriving DecidableEq, Repr

/-- A vertex of a mesh as far as it is filled in. -/
structure LocalVertex where
  position : Position := .origin
  colour : Colour := ⟨0, 0, 0, 0⟩
  uv : TexCoord := .zero
  visited : Bool := false
  deriving DecidableEq, Repr

namespace LocalVertex

/-- Takes position and colour from the store. -/
def hold (l : LocalVertex) (v : Vertex) : LocalVertex :=
  { l with position := v.position, colour := v.colour }

/-- A vertex of the store as the first corner there leaves it. -/
def visit (pool : Array TexCoord) (v : Vertex) (uv : Nat) : LocalVertex where
  position := v.position
  colour := v.colour
  uv := pool[uv]?.getD .zero
  visited := true

end LocalVertex

namespace Mesh

/-- How many vertices a mesh has. -/
def vertexCount (m : Mesh) : Nat :=
  m.positions.size

/-- Whether a corner has visited a vertex. -/
def isVisited (ls : Array LocalVertex) (n : Nat) : Bool :=
  ls[n]?.any LocalVertex.visited

section Reckoned

variable {M : Type → Type} [Monad M] (ar : Arithmetic M) (vertices : Array Vertex)
  (pool : Array TexCoord) (offset : UInt32)

/-- Fills in the vertex of a corner, unless another corner has come first. -/
def visitBy (ls : Array LocalVertex) (c : Corner) : M (Array LocalVertex) := do
  let n := (← ar.subWords c.vertex offset).toNat
  if isVisited ls n then return ls
  else return ls.modify n fun _ => .visit pool (Model.vertexAt vertices c.vertex.toNat) c.uv

/-- Fills in a vertex that no corner has visited; it keeps zero as its coordinates. -/
def fillBy (ls : Array LocalVertex) (n : Nat) : M (Array LocalVertex) := do
  if isVisited ls n then return ls
  else
    let v := Model.vertexAt vertices (← ar.addSizes offset.toNat n)
    return ls.modify n (·.hold v)

/-- The mesh of a batch, which starts at `offset` or at the lowest vertex used, if that
comes before. -/
def ofBatchBy (b : Batch) : M Mesh := do
  match b.lowest?, b.highest? with
  | some lowest, some highest =>
    let offset := min offset lowest
    let size := (← ar.addWords (← ar.subWords highest offset) 1).toNat
    let visited ← b.corners.foldlM (visitBy ar vertices pool offset) (.replicate size {})
    let filled ← (List.range size).foldlM (fillBy ar vertices offset) visited
    let faces ← b.triangles.mapM fun t => t.mapM fun c => ar.subWords c.vertex offset
    return {
      material := b.material
      indexOffset := offset
      positions := filled.map LocalVertex.position
      colours := filled.map LocalVertex.colour
      uvs := filled.map LocalVertex.uv
      faces }
  | _, _ => return { material := b.material, indexOffset := offset }

end Reckoned

def visit (vertices : Array Vertex) (pool : Array TexCoord) (offset : UInt32)
    (ls : Array LocalVertex) (c : Corner) : Array LocalVertex :=
  Id.run (visitBy .plain vertices pool offset ls c)

def fill (vertices : Array Vertex) (offset : UInt32) (ls : Array LocalVertex) (n : Nat) :
    Array LocalVertex :=
  Id.run (fillBy .plain vertices offset ls n)

def ofBatch (vertices : Array Vertex) (pool : Array TexCoord) (offset : UInt32) (b : Batch) :
    Mesh :=
  Id.run (ofBatchBy .plain vertices pool offset b)

end Mesh

end DisplayList

import DisplayList.Command
import DisplayList.Texture.Basic

/-!
# Models

What a model file holds for drawing: vertices, textures with their data, and the
display list.
-/
namespace DisplayList

/-- The contents of a model file, decoded as far as they are laid out. -/
structure Model where
  vertices : Array Vertex := #[]
  textures : Array Texture := #[]
  commands : Array Command := #[]
  textureData : Bytes := []
  deriving DecidableEq, Repr

namespace Model

/-- A vertex of the store. A white one at the origin stands in for a missing one. -/
def vertexAt (vertices : Array Vertex) (index : Nat) : Vertex :=
  vertices[index]?.getD {}

end Model

end DisplayList

/-!
# Vertices

Positions, colours and texture coordinates, all in single precision. A colour has
channels from 0 to 255.
-/
namespace DisplayList

/-- A point in the space of the model. -/
structure Position where
  x : Float32
  y : Float32
  z : Float32
  deriving DecidableEq, Repr

/-- A colour by its channels, each from 0 to 255. -/
structure Colour where
  red : Float32
  green : Float32
  blue : Float32
  alpha : Float32
  deriving DecidableEq, Repr

/-- A point in the plane of a texture. -/
structure TexCoord where
  u : Float32
  v : Float32
  deriving DecidableEq, Repr

namespace Position

def origin : Position := ⟨0, 0, 0⟩

end Position

namespace Colour

def white : Colour := ⟨255, 255, 255, 255⟩

end Colour

namespace TexCoord

def zero : TexCoord := ⟨0, 0⟩

/-- Takes raw coordinates to texture space, where the second axis points the other way. -/
def scaleBy (raw ratio : TexCoord) : TexCoord :=
  ⟨raw.u * ratio.u, raw.v * ratio.v * -1⟩

end TexCoord

/-- A vertex of the store. What stands in for a missing one is white and at the origin. -/
structure Vertex where
  position : Position := .origin
  colour : Colour := .white
  uv : TexCoord := .zero
  deriving DecidableEq, Repr

end DisplayList

import DisplayList.Numeral
import DisplayList.Texture.Tile

/-!
# Materials

A batch of triangles is drawn in one material. The first material of a scene has
no texture; every other one is made for a texture when that texture is first drawn.
-/
namespace DisplayList

/-- What triangles are drawn with: a texture, or none, and how it is wrapped. -/
structure Material where
  name : String
  texture : Option Nat
  wrapS : WrapMode
  wrapT : WrapMode
  deriving DecidableEq, Repr

namespace Material

/-- The name of the material without a texture. -/
def nullName : String := "NullMaterial"

/-- The material of what is drawn without a texture. -/
def null : Material := ⟨nullName, none, .wrap, .wrap⟩

/-- Where the material without a texture stands in every scene. -/
def nullIndex : Nat := 0

/-- The material of a texture, named after its position. -/
def forTexture (texture : Nat) (wrapS wrapT : WrapMode) : Material :=
  ⟨"Material_" ++ Numeral.decimal 4 texture, some texture, wrapS, wrapT⟩

/-- Whether the texture is clamped along both axes. -/
def clamps (m : Material) : Bool :=
  m.wrapS = .clamp && m.wrapT = .clamp

end Material

end DisplayList

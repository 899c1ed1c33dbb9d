import DisplayList.Bytes
import DisplayList.Vertex
import DisplayList.Texture.Format
import DisplayList.Texture.Tile

/-!
# Textures

What is known of a texture: where its bytes start, how they are packed, and what
the display list has said about it so far.
-/
namespace DisplayList

/-- An image of 8-bit channels, four bytes a pixel, row by row from the top. -/
structure PixelBuffer where
  width : UInt32
  height : UInt32
  rgba : Bytes
  deriving DecidableEq, Repr

/-- A texture of a model, and what has been set and found out about it. -/
structure Texture where
  /-- Where the texture starts in the texture data. -/
  dataOffset : UInt32
  format : TexelFormat
  width : UInt32
  height : UInt32
  /-- The last tile record applied. -/
  tile : Option Tile := none
  /-- What raw vertex coordinates are multiplied by, set when the texture is bound. -/
  ratio : TexCoord := .zero
  pixels : Option PixelBuffer := none
  /-- The palette last loaded; it goes before the one in front of the texels. -/
  palette : Option Bytes := none
  deriving DecidableEq, Repr

namespace Texture

section Reckoned

variable {M : Type → Type} [Monad M] (ar : Arithmetic M)

/-- Where the texels start: after the palette of an indexed format. -/
def texelOffsetBy (t : Texture) : M UInt32 :=
  ar.addWords t.dataOffset (.ofNat t.format.paletteLength)

/-- A texture answers to the address of its first byte and to that of its first texel. -/
def answersToBy (t : Texture) (address : UInt32) : M Bool := do
  if t.dataOffset = address then return true
  else return (← t.texelOffsetBy ar) = address

end Reckoned

def texelOffset (t : Texture) : UInt32 :=
  Id.run (t.texelOffsetBy .plain)

/-- The bytes that all texels take, the last byte filled or not. -/
def texelLength (t : Texture) : Nat :=
  (t.width.toNat * t.height.toNat * t.format.bitsPerTexel + 7) / 8

/-- Records a tile, whose format replaces the texture's if it names one. -/
def applyTile (t : Texture) (tile : Tile) : Texture :=
  { t with
    tile := some tile
    format := (TexelFormat.ofKindSize? tile.kind.toNat tile.size.toNat).getD t.format }

def answersTo (t : Texture) (address : UInt32) : Bool :=
  Id.run (t.answersToBy .plain address)

/-- Raw coordinates count 32 to the texel. -/
def unitsPerTexel : Float32 := 32

/-- What one raw coordinate becomes along an axis of `dimension` texels; a scale of
zero, which no record has set, counts as one. -/
def axisRatio (scale : Float32) (dimension : UInt32) : Float32 :=
  if dimension = 0 then 0
  else (if scale == 0 then 1 else scale) / (unitsPerTexel * dimension.toFloat32)

/-- Sets the coordinate ratios from the texture's dimensions and the scales in force. -/
def rescale (t : Texture) (sScale tScale : Float32) : Texture :=
  { t with ratio := ⟨axisRatio sScale t.width, axisRatio tScale t.height⟩ }

theorem texelOffset_eq (t : Texture) :
    t.texelOffset = t.dataOffset + UInt32.ofNat t.format.paletteLength := rfl

theorem answersTo_eq (t : Texture) (address : UInt32) :
    t.answersTo address = (t.dataOffset = address || t.texelOffset = address) := by
  unfold answersTo answersToBy
  by_cases hfirst : t.dataOffset = address
  · simp [hfirst]
  · simp only [hfirst, if_false, decide_false, Bool.false_or]
    rfl

@[simp] theorem applyTile_dataOffset (t : Texture) (tile : Tile) :
    (t.applyTile tile).dataOffset = t.dataOffset := rfl

@[simp] theorem rescale_dataOffset (t : Texture) (sScale tScale : Float32) :
    (t.rescale sScale tScale).dataOffset = t.dataOffset := rfl

end Texture

end DisplayList

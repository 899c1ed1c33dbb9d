/-!
# Tiles and wrap modes

A tile record names the format of the texels it covers and says, per axis, what
happens to coordinates beyond the texture.
-/
namespace DisplayList

/-- What happens to coordinates beyond a texture: they repeat it, or keep to its edge. -/
inductive WrapMode
  | wrap
  | clamp
  deriving DecidableEq, Repr

namespace WrapMode

/-- Bit 1 of a tile's mode bits clamps; the others play no part. -/
def ofBits (bits : UInt8) : WrapMode :=
  if bits.toNat / 2 % 2 = 1 then clamp else wrap

end WrapMode

/-- The fields of a tile record: kind and size of its texels, mode bits per axis. -/
structure Tile where
  kind : UInt8
  size : UInt8
  modeS : UInt8
  modeT : UInt8
  deriving DecidableEq, Repr

end DisplayList

/-!
# Texel formats

How the texels of a texture are packed. A model file names five of the formats by
a code of its own; the tile records of a display list name all nine by a pair of
a kind and a size.
-/
namespace DisplayList

/-- The packed formats: colours, indices into a palette, intensities with and without cover. -/
inductive TexelFormat
  | rgba16
  | rgba32
  | ci4
  | ci8
  | ia4
  | ia8
  | ia16
  | i4
  | i8
  deriving DecidableEq, Repr

namespace TexelFormat

/-- The format that a texture header's code names. -/
def ofHeaderCode? : Nat → Option TexelFormat
  | 0x01 => some ci4
  | 0x02 => some ci8
  | 0x04 => some rgba16
  | 0x08 => some rgba32
  | 0x10 => some ia8
  | _ => none

/-- The format that a tile's kind and size name. -/
def ofKindSize? : Nat → Nat → Option TexelFormat
  | 0, 2 => some rgba16
  | 0, 3 => some rgba32
  | 2, 0 => some ci4
  | 2, 1 => some ci8
  | 3, 0 => some ia4
  | 3, 1 => some ia8
  | 3, 2 => some ia16
  | 4, 0 => some i4
  | 4, 1 => some i8
  | _, _ => none

/-- The bits that one texel takes. -/
def bitsPerTexel : TexelFormat → Nat
  | ci4 | ia4 | i4 => 4
  | ci8 | ia8 | i8 => 8
  | rgba16 | ia16 => 16
  | rgba32 => 32

/-- The bytes of the palette that stands before the texels of an indexed format. -/
def paletteLength : TexelFormat → Nat
  | ci4 => 32
  | ci8 => 512
  | _ => 0

/-- The format as it is spelled in messages. -/
def name : TexelFormat → String
  | rgba16 => "Rgba16"
  | rgba32 => "Rgba32"
  | ci4 => "Ci4"
  | ci8 => "Ci8"
  | ia4 => "Ia4"
  | ia8 => "Ia8"
  | ia16 => "Ia16"
  | i4 => "I4"
  | i8 => "I8"

end TexelFormat

end DisplayList

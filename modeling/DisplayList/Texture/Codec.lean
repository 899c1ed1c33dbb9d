import DisplayList.Texture.Basic

/-!
# From packed texels to pixels

A codec makes an image of a texture and the bytes from the texture's start on. The
codec of this module knows the nine packed formats. It works in two parts: the
texels are unpacked into numbers, and each number has a colour in its format.
-/
namespace DisplayList

/-- Why no image could be made. -/
inductive CodecError
  | shortData (needed available : Nat)
  | emptyDimensions (width height : UInt32)
  deriving DecidableEq, Repr

namespace CodecError

def message : CodecError → String
  | shortData needed available => s!"Texture data too short: need {needed} bytes, have {available}"
  | emptyDimensions width height => s!"Texture has empty dimensions {width}×{height}"

end CodecError

/-- Makes an image of a texture and of all texture data from its first byte on. -/
abbrev Codec := Texture → Bytes → Except CodecError PixelBuffer

/-- One pixel, its channels from 0 to 255. -/
structure Pixel where
  red : UInt8
  green : UInt8
  blue : UInt8
  alpha : UInt8
  deriving DecidableEq, Repr

namespace Pixel

/-- The channels in order. -/
def bytes (p : Pixel) : Bytes :=
  [p.red, p.green, p.blue, p.alpha]

/-- What an index beyond the palette shows. -/
def transparent : Pixel := ⟨0, 0, 0, 0⟩

/-- One intensity in all three colours. -/
def grey (intensity alpha : UInt8) : Pixel :=
  ⟨intensity, intensity, intensity, alpha⟩

/-- Full cover for an odd number, none for an even one. -/
def coverage (bit : Nat) : UInt8 :=
  if bit % 2 = 1 then 255 else 0

/-- Five bits of a channel, the topmost ones repeated below. -/
def expandFive (channel : Nat) : UInt8 :=
  UInt8.ofNat (channel * 8 + channel / 4)

/-- Five bits each of red, green and blue above one bit of cover. -/
def of5551 (word : Nat) : Pixel :=
  ⟨expandFive (bitField word 11 5), expandFive (bitField word 6 5),
    expandFive (bitField word 1 5), coverage word⟩

@[simp] theorem length_bytes (p : Pixel) : p.bytes.length = 4 := rfl

end Pixel

namespace Texels

/-- The numbers of the half bytes, the upper half first. -/
def halfBytes : Bytes → List Nat
  | [] => []
  | b :: rest => b.toNat / 16 :: b.toNat % 16 :: halfBytes rest

/-- The numbers of the 16-bit words; a byte left over is dropped. -/
def words16 : Bytes → List Nat
  | a :: b :: rest => (Bytes.word16 a b).toNat :: words16 rest
  | _ => []

/-- The numbers of the 32-bit words; up to three bytes left over are dropped. -/
def words32 : Bytes → List Nat
  | a :: b :: c :: d :: rest => (Bytes.word32 a b c d).toNat :: words32 rest
  | _ => []

/-- The numbers of the texels packed in `bytes`, in order. -/
def unpack : TexelFormat → Bytes → List Nat
  | .ci4 | .ia4 | .i4 => halfBytes
  | .ci8 | .ia8 | .i8 => List.map UInt8.toNat
  | .rgba16 | .ia16 => words16
  | .rgba32 => words32

/-- The colours of a palette, two bytes each; a byte left over names none. -/
def paletteColours (bytes : Bytes) : Array Pixel :=
  ((words16 bytes).map Pixel.of5551).toArray

/-- The colour of the texel with number `n`. -/
def colour (format : TexelFormat) (palette : Array Pixel) (n : Nat) : Pixel :=
  match format with
  | .rgba16 => .of5551 n
  | .rgba32 => ⟨.ofNat (bitField n 24 8), .ofNat (bitField n 16 8),
      .ofNat (bitField n 8 8), .ofNat (bitField n 0 8)⟩
  | .ci4 | .ci8 => palette[n]?.getD .transparent
  | .ia4 => .grey (.ofNat (n / 2 * 255 / 7)) (Pixel.coverage n)
  | .ia8 => .grey (.ofNat (n / 16 * 17)) (.ofNat (n % 16 * 17))
  | .ia16 => .grey (.ofNat (n / 256)) (.ofNat (n % 256))
  | .i4 => .grey (.ofNat (n * 17)) (.ofNat (n * 17))
  | .i8 => .grey (.ofNat n) (.ofNat n)

end Texels

namespace Codec

/-- The codec for the nine packed formats. A texture without extent and data that end
before the last texel are refused; a palette that was loaded goes before the
embedded one. -/
def packed : Codec := fun t raw =>
  if t.width = 0 ∨ t.height = 0 then .error (.emptyDimensions t.width t.height)
  else
    let start := t.format.paletteLength
    let needed := start + t.texelLength
    if raw.length < needed then .error (.shortData needed raw.length)
    else
      let palette := Texels.paletteColours (t.palette.getD (raw.take start))
      let numbers := Texels.unpack t.format ((raw.take needed).drop start)
      let shown := numbers.take (t.width.toNat * t.height.toNat)
      .ok ⟨t.width, t.height,
        shown.flatMap fun n => (Texels.colour t.format palette n).bytes⟩

end Codec

end DisplayList

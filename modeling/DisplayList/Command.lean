import DisplayList.Bytes
import DisplayList.Triangle
import DisplayList.Texture.Tile
import DisplayList.Texture.Format

/-!
# Commands

A display list is a row of eight-byte commands. The first byte says what to do, the
others hold fields whose places depend on it; the last four are also read together
as one word, the operand. Each reading below is defined for every command, so that
what a field holds does not depend on whether the opcode uses it.
-/
namespace DisplayList

/-- What a command does. -/
inductive Opcode
  | loadVertices
  | groupStart
  | drawQuad
  | selectNull
  | newTexture
  | setScale
  | drawTriangle
  | loadPalette
  | setTile
  | bindTexture
  deriving DecidableEq, Repr

namespace Opcode

/-- The byte that stands for an opcode. -/
def byte : Opcode → UInt8
  | loadVertices => 4
  | groupStart => 6
  | drawQuad => 177
  | selectNull => 182
  | newTexture => 186
  | setScale => 187
  | drawTriangle => 191
  | loadPalette => 240
  | setTile => 245
  | bindTexture => 253

/-- The opcode of a byte; most bytes stand for none. -/
def ofByte? (b : UInt8) : Option Opcode :=
  match b.toNat with
  | 4 => some loadVertices
  | 6 => some groupStart
  | 177 => some drawQuad
  | 182 => some selectNull
  | 186 => some newTexture
  | 187 => some setScale
  | 191 => some drawTriangle
  | 240 => some loadPalette
  | 245 => some setTile
  | 253 => some bindTexture
  | _ => none

@[simp] theorem ofByte?_byte (o : Opcode) : ofByte? o.byte = some o := by
  cases o <;> rfl

end Opcode

/-- What a command loads: `count` vertices from `base` on, into slots from `start` on. -/
structure VertexLoad where
  start : Nat
  count : Nat
  base : UInt32
  deriving DecidableEq, Repr

/-- Eight bytes of a display list. -/
structure Command where
  bytes : Vector UInt8 8
  deriving DecidableEq, Repr

namespace Command

/-- The command of a first byte, three parameter bytes and an operand. -/
def ofFields (code p q r : UInt8) (operand : UInt32) : Command :=
  let n := operand.toNat
  ⟨#v[code, p, q, r, .ofNat (n / 16777216), .ofNat (n / 65536), .ofNat (n / 256), .ofNat n]⟩

/-- The command of eight bytes. -/
def ofRow (a b c d e f g h : UInt8) : Command :=
  ⟨#v[a, b, c, d, e, f, g, h]⟩

/-- Cuts bytes into commands; up to seven bytes left over are dropped. -/
def ofBytes : Bytes → List Command
  | a :: b :: c :: d :: e :: f :: g :: h :: rest => ofRow a b c d e f g h :: ofBytes rest
  | _ => []

/-- What the first byte says to do, if anything. -/
def opcode? (c : Command) : Option Opcode :=
  Opcode.ofByte? c.bytes[0]

/-- The first byte itself, whether it stands for an opcode or not. -/
def code (c : Command) : UInt8 :=
  c.bytes[0]

/-- The last four bytes as one word. -/
def operand (c : Command) : UInt32 :=
  Bytes.word32 c.bytes[4] c.bytes[5] c.bytes[6] c.bytes[7]

/-- Slots are written doubled. -/
def slot (b : UInt8) : Nat :=
  b.toNat / 2

/-- The slots of a triangle, in the last three bytes. -/
def triangle (c : Command) : Triangle Nat :=
  ⟨slot c.bytes[5], slot c.bytes[6], slot c.bytes[7]⟩

/-- The other triangle of a quad, in the bytes after the first. -/
def firstTriangle (c : Command) : Triangle Nat :=
  ⟨slot c.bytes[1], slot c.bytes[2], slot c.bytes[3]⟩

/-- Start slots are limited to 63, twice as many as the window holds. -/
def lastStart : Nat := 63

/-- The fields of a load: a start slot written doubled, a count above two other bits, and
the address of the first vertex, each of which takes sixteen bytes. -/
def vertexLoad (c : Command) : VertexLoad where
  start := min (c.bytes[1].toNat / 2) lastStart
  count := c.bytes[2].toNat / 4
  base := .ofNat (bitField c.operand.toNat 0 24 / 16)

/-- The kind of texel that a command names in its second byte. -/
def texelKind (c : Command) : Nat :=
  bitField c.bytes[1].toNat 5 3

/-- The size of texel that a command names in its second byte. -/
def texelSize (c : Command) : Nat :=
  bitField c.bytes[1].toNat 3 2

/-- The fields of a tile record, the mode bits out of the operand. -/
def tile (c : Command) : Tile where
  kind := .ofNat c.texelKind
  size := .ofNat c.texelSize
  modeS := .ofNat (bitField c.operand.toNat 8 2)
  modeT := .ofNat (bitField c.operand.toNat 18 2)

/-- An address is the operand without its first byte, which names a segment. -/
def address (c : Command) : UInt32 :=
  .ofNat (bitField c.operand.toNat 0 24)

/-- The texel format that a command names, 16-bit colour if it names none. -/
def texelFormat (c : Command) : TexelFormat :=
  (TexelFormat.ofKindSize? c.texelKind c.texelSize).getD .rgba16

/-- The bytes of a palette: two for every colour, of which an operand counts all but one. -/
def paletteLengthBy {M : Type → Type} [Monad M] (ar : Arithmetic M) (operand : UInt32) : M Nat := do
  let colours ← ar.mulWords (.ofNat (bitField operand.toNat 14 8)) 2
  return (← ar.addWords colours 2).toNat

def paletteLength (operand : UInt32) : Nat :=
  Id.run (paletteLengthBy .plain operand)

/-- The two scales in an operand, each a fraction of 65536. -/
def scales (operand : UInt32) : Float32 × Float32 :=
  ((UInt32.ofNat (bitField operand.toNat 16 16)).toFloat32 / 65536,
    (UInt32.ofNat (bitField operand.toNat 0 16)).toFloat32 / 65536)

theorem paletteLength_eq (operand : UInt32) :
    paletteLength operand = bitField operand.toNat 14 8 * 2 + 2 := by
  have hlt : bitField operand.toNat 14 8 < 256 := bitField_lt ..
  show (UInt32.ofNat (bitField operand.toNat 14 8) * 2 + 2).toNat = _
  rw [UInt32.toNat_add, UInt32.toNat_mul, UInt32.toNat_ofNat']
  simp only [UInt32.reduceToNat]
  omega

theorem length_ofBytes (bytes : Bytes) : (ofBytes bytes).length = bytes.length / 8 := by
  fun_induction ofBytes bytes with
  | case1 a b c d e f g h rest ih =>
    simp only [List.length_cons, ih]
    omega
  | case2 bytes hshort =>
    match bytes, hshort with
    | [], _ | [_], _ | [_, _], _ | [_, _, _], _ | [_, _, _, _], _ | [_, _, _, _, _], _
    | [_, _, _, _, _, _], _ | [_, _, _, _, _, _, _], _ => simp
    | a :: b :: c :: d :: e :: f :: g :: h :: rest, hshort =>
      exact absurd rfl (hshort a b c d e f g h rest)

theorem vertexLoad_start_le (c : Command) : c.vertexLoad.start ≤ 63 := Nat.min_le_right ..

theorem vertexLoad_count_lt (c : Command) : c.vertexLoad.count < 64 := by
  have := c.bytes[2].toNat_lt
  simp only [vertexLoad]
  omega

end Command

end DisplayList

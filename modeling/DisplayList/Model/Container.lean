import DisplayList.Arithmetic
import DisplayList.Journal
import DisplayList.Model.Basic

/-!
# Model files

A model file begins with a header of 0x20 bytes: a magic number and the offsets of
three blocks, the texture setup, the display list setup and the vertex store setup,
and of a collision setup, before which a display list has to end. All words are
big-endian. Nothing is read that is not within the file. The loader is written over a
`Reading`, which says how it reckons with offsets and how it takes bytes.
-/
namespace DisplayList

/-- A part of a model file, by the name it has in messages. -/
structure Region where
  name : String
  deriving DecidableEq, Repr

namespace Region

def header : Region := ⟨"header"⟩
def textureSetup : Region := ⟨"texture setup"⟩
def textureHeaders : Region := ⟨"texture headers"⟩
def textureData : Region := ⟨"texture data"⟩
def displayListSetup : Region := ⟨"display list setup"⟩
def displayList : Region := ⟨"display list"⟩
def vertexStoreSetup : Region := ⟨"vertex store setup"⟩
def vertexStore : Region := ⟨"vertex store"⟩

end Region

/-- What the parts of a model file contradict each other in. -/
inductive LayoutFault
  | noDisplayList
  | noVertexStore
  | unknownFormat (texture code : Nat)
  | textureBeyondData (texture offset size : Nat)
  | overlapsCollision (commands start collision : Nat)
  /-- Any other fault, in words. -/
  | other (reason : String)
  deriving DecidableEq, Repr

namespace LayoutFault

def message : LayoutFault → String
  | noDisplayList => "model has no display list setup"
  | noVertexStore => "model has no vertex store setup"
  | unknownFormat texture code =>
    s!"texture {texture} has unknown format code " ++ Numeral.hexadecimal 1 code
  | textureBeyondData texture offset size =>
    s!"texture {texture} offset " ++ Numeral.hexadecimal 1 offset ++
      s!" is past texture data ({size} bytes)"
  | overlapsCollision commands start collision =>
    s!"display list ({commands} commands at " ++ Numeral.hexadecimal 1 start ++
      ") overlaps collision setup at " ++ Numeral.hexadecimal 1 collision
  | other reason => reason

end LayoutFault

/-- Why bytes are no model. -/
inductive LoadError
  | badMagic (found : UInt32)
  | outOfBounds (region : Region) (offset length total : Nat)
  | inconsistent (fault : LayoutFault)
  deriving DecidableEq, Repr

namespace LoadError

def message : LoadError → String
  | badMagic found =>
    "Bad model magic: expected 0x0000000B, found " ++ Numeral.hexadecimal 8 found.toNat
  | outOfBounds region offset length total =>
    s!"{region.name} region at " ++ Numeral.hexadecimal 1 offset ++
      s!" (+{length} bytes) exceeds blob length {total}"
  | inconsistent fault => s!"Inconsistent model layout: {fault.message}"

end LoadError

namespace Container

/-- The first word of every model file. -/
def magic : UInt32 := 11

/-- Cuts the first `count` records of `size` bytes. -/
def records (size : Nat) : Nat → Bytes → List Bytes
  | 0, _ => []
  | count + 1, bytes => bytes.take size :: records size count (bytes.drop size)

end Container

/-- A way to read a file: to refuse it, to reckon with its offsets, and to take the byte at an
offset out of a part of it. -/
structure Reading (ε : Type) extends Arithmetic (Except ε) where
  refuse : LoadError → ε
  byteAt : Bytes → Nat → Except ε UInt8

namespace Reading

open Container

/-- Fails only where a file is refused. -/
def plain : Reading LoadError where
  toArithmetic := .plain
  refuse e := e
  byteAt part offset := .ok (part.byteAt offset)

variable {ε : Type} (rd : Reading ε)

/-- Goes on only if a condition holds. -/
def ensure (condition : Prop) [Decidable condition] (e : LoadError) : Except ε Unit :=
  if condition then .ok () else .error (rd.refuse e)

/-- The bytes of a region, which has to lie within the file. -/
def region (file : Bytes) (r : Region) (offset length : Nat) : Except ε Bytes := do
  match ← file.sliceBy rd.toArithmetic offset length with
  | some part => return part
  | none => throw (rd.refuse (.outOfBounds r offset length file.length))

/-- The 16-bit word at an offset in a part of a file. -/
def word16At (part : Bytes) (offset : Nat) : Except ε UInt16 := do
  return Bytes.word16 (← rd.byteAt part offset) (← rd.byteAt part (offset + 1))

/-- The 32-bit word at an offset in a part of a file. -/
def word32At (part : Bytes) (offset : Nat) : Except ε UInt32 := do
  return Bytes.word32 (← rd.byteAt part offset) (← rd.byteAt part (offset + 1))
    (← rd.byteAt part (offset + 2)) (← rd.byteAt part (offset + 3))

/-- The 16-bit word at an offset in a region. -/
def readWord16 (file : Bytes) (r : Region) (offset : Nat) : Except ε Nat := do
  return (← rd.word16At (← rd.region file r offset 2) 0).toNat

/-- The 32-bit word at an offset in a region. -/
def readWord32 (file : Bytes) (r : Region) (offset : Nat) : Except ε Nat := do
  return (← rd.word32At (← rd.region file r offset 4) 0).toNat

/-- The texture of a 16-byte header, the `index`-th of textures with `size` bytes of data. -/
def texture (size index : Nat) (header : Bytes) : Except ε Texture := do
  let offset ← rd.word32At header 0
  let code := (← rd.word16At header 4).toNat
  let some format := TexelFormat.ofHeaderCode? code
    | throw (rd.refuse (.inconsistent (.unknownFormat index code)))
  rd.ensure (offset.toNat ≤ size)
    (.inconsistent (.textureBeyondData index offset.toNat size))
  return {
    dataOffset := offset
    format
    width := (← rd.byteAt header 8).toUInt32
    height := (← rd.byteAt header 9).toUInt32 }

/-- The textures of headers, counted from `index`, each noted as it is read. -/
def texturesFrom (size : Nat) : Nat → List Bytes → Logged ε (List Texture)
  | _, [] => return []
  | index, header :: rest => do
    let t ← rd.texture size index header
    Logged.note (.textureRead index t.format t.width t.height t.dataOffset)
    let ts ← texturesFrom size (index + 1) rest
    return t :: ts

/-- The textures and the texture data of a setup: eight bytes with the size of the data
and the count of the headers, the headers, and the data. -/
def readTextureSetup (file : Bytes) (setup : Nat) : Logged ε (Array Texture × Bytes) := do
  let size ← rd.readWord32 file .textureSetup setup
  let count ← rd.readWord16 file .textureSetup (← rd.addSizes setup 4)
  let start ← rd.addSizes setup 8
  let length ← rd.mulSizes count 16
  let headers ← rd.region file .textureHeaders start length
  let data ← rd.region file .textureData (← rd.addSizes start length) size
  let textures ← rd.texturesFrom size 0 (records 16 count headers)
  return (textures.toArray, data)

/-- The textures and the texture data of a file; without a setup there are none. -/
def readTextures (file : Bytes) (setup : Nat) : Logged ε (Array Texture × Bytes) :=
  if setup = 0 then return (#[], []) else rd.readTextureSetup file setup

/-- The command of an eight-byte record. -/
def command (record : Bytes) : Except ε Command := do
  return .ofRow (← rd.byteAt record 0) (← rd.byteAt record 1) (← rd.byteAt record 2)
    (← rd.byteAt record 3) (← rd.byteAt record 4) (← rd.byteAt record 5) (← rd.byteAt record 6)
    (← rd.byteAt record 7)

/-- The commands of records; up to seven bytes left over are dropped. -/
def commands (list : Bytes) : Except ε (List Command) :=
  (records 8 (list.length / 8) list).mapM rd.command

/-- The commands of a setup: eight bytes with their count, then the commands. They have
to end before a collision setup that comes after the display list setup. -/
def readCommands (file : Bytes) (setup collision : Nat) : Except ε (Array Command) := do
  let count ← rd.readWord32 file .displayListSetup setup
  let start ← rd.addSizes setup 8
  let length ← rd.mulSizes count 8
  let list ← rd.region file .displayList start length
  let stop ← rd.addSizes start length
  rd.ensure (setup < collision → stop ≤ collision)
    (.inconsistent (.overlapsCollision count start collision))
  return (← rd.commands list).toArray

/-- The vertex of a 16-byte record: position and texture coordinates as signed words,
channels of the colour as bytes. -/
def vertex (record : Bytes) : Except ε Vertex := do
  let coordinate (offset : Nat) : Except ε Float32 := do
    return .ofInt (Bytes.signed16 (← rd.word16At record offset))
  let channel (offset : Nat) : Except ε Float32 := do
    return (← rd.byteAt record offset).toFloat32
  return {
    position := ⟨← coordinate 0, ← coordinate 2, ← coordinate 4⟩
    uv := ⟨← coordinate 8, ← coordinate 10⟩
    colour := ⟨← channel 12, ← channel 13, ← channel 14, ← channel 15⟩ }

/-- The vertices of a setup: 0x18 bytes with their count at the end, then the vertices. -/
def readVertices (file : Bytes) (setup : Nat) : Except ε (Array Vertex) := do
  let _ ← rd.region file .vertexStoreSetup setup 0x18
  let count ← rd.readWord16 file .vertexStoreSetup (← rd.addSizes setup 0x16)
  let start ← rd.addSizes setup 0x18
  let store ← rd.region file .vertexStore start (← rd.mulSizes count 16)
  return (← (records 16 count store).mapM rd.vertex).toArray

/-- Reads the model in a file. -/
def load (file : Bytes) : Logged ε Model := do
  let found ← rd.readWord32 file .header 0
  rd.ensure (found = magic.toNat) (.badMagic (.ofNat found))
  let _ ← rd.region file .header 0 0x20
  let textureSetup ← rd.readWord16 file .header 0x08
  let displayListSetup ← rd.readWord32 file .header 0x0C
  let vertexSetup ← rd.readWord32 file .header 0x10
  let collisionSetup ← rd.readWord32 file .header 0x1C
  rd.ensure (displayListSetup ≠ 0) (.inconsistent .noDisplayList)
  rd.ensure (vertexSetup ≠ 0) (.inconsistent .noVertexStore)
  let (textures, textureData) ← rd.readTextures file textureSetup
  let commands ← rd.readCommands file displayListSetup collisionSetup
  let vertices ← rd.readVertices file vertexSetup
  Logged.note (.modelRead vertices.size textures.size commands.size)
  return { vertices, textures, commands, textureData }

/-! ### The plain reading -/

@[simp] theorem plain_addSizes (a b : Nat) : plain.addSizes a b = .ok (a + b) := rfl

@[simp] theorem plain_mulSizes (a b : Nat) : plain.mulSizes a b = .ok (a * b) := rfl

@[simp] theorem plain_byteAt (part : Bytes) (offset : Nat) :
    plain.byteAt part offset = .ok (part.byteAt offset) := rfl

@[simp] theorem plain_word16At (part : Bytes) (offset : Nat) :
    plain.word16At part offset = .ok (part.word16At offset) := rfl

@[simp] theorem plain_word32At (part : Bytes) (offset : Nat) :
    plain.word32At part offset = .ok (part.word32At offset) := rfl

theorem plain_region (file : Bytes) (r : Region) (offset length : Nat) :
    plain.region file r offset length =
      match file.slice? offset length with
      | some part => .ok part
      | none => .error (.outOfBounds r offset length file.length) := rfl

theorem plain_readWord16 (file : Bytes) (r : Region) (offset : Nat) :
    plain.readWord16 file r offset =
      (plain.region file r offset 2).map fun part => (part.word16At 0).toNat := by
  rw [readWord16]
  cases plain.region file r offset 2 <;> rfl

theorem plain_readWord32 (file : Bytes) (r : Region) (offset : Nat) :
    plain.readWord32 file r offset =
      (plain.region file r offset 4).map fun part => (part.word32At 0).toNat := by
  rw [readWord32]
  cases plain.region file r offset 4 <;> rfl

theorem plain_commands (list : Bytes) : plain.commands list = .ok (Command.ofBytes list) := by
  fun_induction Command.ofBytes list with
  | case1 a b c d e f g h rest ih =>
    have hcount : (a :: b :: c :: d :: e :: f :: g :: h :: rest).length / 8 =
        rest.length / 8 + 1 := by
      simp only [List.length_cons]
      omega
    rw [commands, hcount, records, List.mapM_cons]
    show (plain.commands rest >>= fun cs => pure (.ofRow a b c d e f g h :: cs)) = _
    rw [ih]
    rfl
  | case2 list hshort =>
    have hnil : Command.ofBytes list = [] := by rw [Command.ofBytes]; exact hshort
    have hlength : list.length / 8 = 0 := by rw [← Command.length_ofBytes, hnil, List.length_nil]
    rw [commands, hlength]
    rfl

end Reading

namespace Model

/-- Reads the model in a file. -/
def load (file : Bytes) : Logged LoadError Model :=
  Reading.plain.load file

end Model

end DisplayList

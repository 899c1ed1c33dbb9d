import DisplayList.Command
import DisplayList.Journal
import DisplayList.Material
import DisplayList.Texture.Codec

/-!
# The texture table

The textures of a model, those that a display list added by binding an address that
no texture answers to, and the materials made for them so far. A material is made
when its texture is first drawn, and only then is the codec asked for an image.
-/
namespace DisplayList

/-- What a codec was asked: a texture as it stood, and its bytes. -/
structure CodecRequest where
  texture : Texture
  raw : Bytes
  deriving DecidableEq, Repr

/-- Textures, materials and what the codec was asked. -/
structure TextureTable where
  textures : Array Texture
  materials : Array Material := #[.null]
  /-- Everything that the codec was asked, in order. -/
  requests : Array CodecRequest := #[]
  deriving DecidableEq, Repr

namespace TextureTable

/-- The coordinate ratios of a texture; without a texture they are zero. -/
def ratio (table : TextureTable) (index : Nat) : TexCoord :=
  (table.textures[index]?.map Texture.ratio).getD .zero

/-- The material made for a texture. -/
def materialOf? (table : TextureTable) (index : Nat) : Option Nat :=
  table.materials.findIdx? (·.texture = some index)

/-- Changes one texture, if it is there. -/
def modify (table : TextureTable) (index : Nat) (f : Texture → Texture) : TextureTable :=
  { table with textures := table.textures.modify index f }

/-- Adds a texture of which only the address and a format are known. -/
def grow (table : TextureTable) (address : UInt32) (format : TexelFormat) : TextureTable :=
  let added : Texture := { dataOffset := address, format, width := 0, height := 0 }
  { table with textures := table.textures.push added }

section Reckoned

variable {M : Type → Type} [Monad M] (ar : Arithmetic M)

/-- The first texture that answers to an address, counted from `index`. -/
def findFromBy (address : UInt32) : Nat → List Texture → M (Option Nat)
  | _, [] => return none
  | index, t :: rest => do
    if ← t.answersToBy ar address then return some index
    else findFromBy address (index + 1) rest

/-- The texture that a command at `position` binds, added and reported if no texture
answers to the command's address. -/
def selectBy (table : TextureTable) (position : Nat) (c : Command) :
    M (TextureTable × Nat × Journal) := do
  match ← findFromBy ar c.address 0 table.textures.toList with
  | some index => return (table, index, [])
  | none =>
    let grown := table.grow c.address c.texelFormat
    let last ← ar.subSizes grown.textures.size 1
    return (grown, last, [.problem (.unknownTexture position c.address)])

/-- Binds a texture: applies the tile, if one is at hand, and fixes the ratios. -/
def bindBy (table : TextureTable) (position : Nat) (c : Command) (tile : Option Tile)
    (sScale tScale : Float32) : M (TextureTable × Nat × Journal) := do
  let (table, index, journal) ← table.selectBy ar position c
  let settle (t : Texture) : Texture := (tile.elim t t.applyTile).rescale sScale tScale
  return (table.modify index settle, index, journal)

/-- Loads a palette from the start of a texture's bytes. What is not wholly within the
data is not loaded but reported. -/
def loadPaletteBy (table : TextureTable) (data : Bytes) (position index size : Nat) :
    M (TextureTable × Journal) := do
  let palette? ← (match table.textures[index]? with
    | none => pure none
    | some t => data.sliceBy ar t.dataOffset.toNat size)
  return match palette? with
  | some palette => (table.modify index fun t => { t with palette := some palette }, [])
  | none => (table, [.problem (.paletteOutOfRange position index)])

end Reckoned

def find? (table : TextureTable) (address : UInt32) : Option Nat :=
  Id.run (findFromBy .plain address 0 table.textures.toList)

def select (table : TextureTable) (position : Nat) (c : Command) :
    TextureTable × Nat × Journal :=
  Id.run (table.selectBy .plain position c)

def bind (table : TextureTable) (position : Nat) (c : Command) (tile : Option Tile)
    (sScale tScale : Float32) : TextureTable × Nat × Journal :=
  Id.run (table.bindBy .plain position c tile sScale tScale)

/-- Applies a tile to a texture; without the texture nothing happens. -/
def setTile (table : TextureTable) (index : Nat) (tile : Tile) : TextureTable :=
  table.modify index (·.applyTile tile)

def loadPalette (table : TextureTable) (data : Bytes) (position index size : Nat) :
    TextureTable × Journal :=
  Id.run (table.loadPaletteBy .plain data position index size)

/-- Asks the codec for the image of a texture that has none; a refusal is reported. -/
def paint (table : TextureTable) (codec : Codec) (data : Bytes) (index : Nat) (t : Texture) :
    TextureTable × Journal :=
  if t.pixels.isSome then (table, [])
  else
    let raw := data.drop t.dataOffset.toNat
    let asked := { table with requests := table.requests.push ⟨t, raw⟩ }
    match codec t raw with
    | .ok pixels => (asked.modify index fun t => { t with pixels := some pixels }, [])
    | .error e => (asked, [.problem (.textureDecode index e.message)])

/-- Makes a material for a texture, whose image the codec is asked for. -/
def addMaterial (table : TextureTable) (codec : Codec) (data : Bytes) (index : Nat) (t : Texture)
    (wrapS wrapT : WrapMode) : TextureTable × Nat × Journal :=
  let (table, journal) := table.paint codec data index t
  let material := table.materials.size
  ({ table with materials := table.materials.push (.forTexture index wrapS wrapT) }, material,
    journal ++ [.note (.materialCreated material index)])

/-- The material of a texture, made with these wrap modes if there is none yet. There is
no material without a texture. -/
def materialFor (table : TextureTable) (codec : Codec) (data : Bytes) (index : Nat)
    (wrapS wrapT : WrapMode) : TextureTable × Option Nat × Journal :=
  match table.textures[index]?, table.materialOf? index with
  | none, _ => (table, none, [])
  | some _, some material => (table, some material, [])
  | some t, none =>
    let (table, material, journal) := table.addMaterial codec data index t wrapS wrapT
    (table, some material, journal)

variable (table : TextureTable) (position : Nat) (c : Command)

theorem find?_eq (address : UInt32) :
    table.find? address = table.textures.findIdx? (·.answersTo address) := by
  have hfrom (index : Nat) (ts : List Texture) : Id.run (findFromBy .plain address index ts) =
      (ts.findIdx? (·.answersTo address)).map (· + index) := by
    induction ts generalizing index with
    | nil => rfl
    | cons t ts ih =>
      show (if t.answersTo address = true then some index
        else Id.run (findFromBy .plain address (index + 1) ts)) = _
      rw [ih, List.findIdx?_cons]
      split
      · simp
      · simp [Option.map_map, Function.comp_def, Nat.add_comm, Nat.add_left_comm]
  rw [find?, hfrom, ← List.findIdx?_toArray, Array.toArray_toList]
  simp

theorem select_eq : table.select position c =
    match table.find? c.address with
    | some index => (table, index, [])
    | none => (table.grow c.address c.texelFormat, table.textures.size,
        [.problem (.unknownTexture position c.address)]) := by
  rw [select, selectBy, Id.run_bind, ← find?]
  cases table.find? c.address <;> simp [grow]

theorem bind_eq (tile : Option Tile) (sScale tScale : Float32) :
    table.bind position c tile sScale tScale =
      ((table.select position c).1.modify (table.select position c).2.1
          fun t => (tile.elim t t.applyTile).rescale sScale tScale,
        (table.select position c).2) := rfl

theorem loadPalette_eq (data : Bytes) (index size : Nat) :
    table.loadPalette data position index size =
      match table.textures[index]?.bind fun t => data.slice? t.dataOffset.toNat size with
      | some palette => (table.modify index fun t => { t with palette := some palette }, [])
      | none => (table, [.problem (.paletteOutOfRange position index)]) := by
  unfold loadPalette loadPaletteBy
  cases table.textures[index]? <;> rfl

end TextureTable

end DisplayList

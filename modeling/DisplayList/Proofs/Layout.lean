import DisplayList.Model.Container

/-!
# Laid out files

What a model file has to hold is said here from the side of a writer: which bytes stand at
which offsets, for blocks in any order and whatever stands between them. A file that holds
what is laid out is read back as what was laid out, and such files exist: the blocks can be
written over any bytes, as long as they are apart from each other.
-/
namespace DisplayList

namespace Bytes

/-- A part of a file stands at an offset. -/
def HasAt (file : Bytes) (offset : Nat) (part : Bytes) : Prop :=
  offset ≤ file.length ∧ part <+: file.drop offset

instance (file : Bytes) (offset : Nat) (part : Bytes) : Decidable (file.HasAt offset part) :=
  inferInstanceAs (Decidable (_ ∧ _))

namespace HasAt

variable {file p : Bytes} {offset : Nat}

theorem length_le (h : file.HasAt offset p) : offset + p.length ≤ file.length := by
  have hdrop := h.2.length_le
  rw [List.length_drop] at hdrop
  have := h.1
  omega

theorem slice? (h : file.HasAt offset p) : file.slice? offset p.length = some p := by
  rw [Bytes.slice?_eq, if_pos h.length_le, ← List.prefix_iff_eq_take.mp h.2]

end HasAt

theorem hasAt_iff_getElem? {file part : Bytes} {offset : Nat} : file.HasAt offset part ↔
    offset + part.length ≤ file.length ∧ ∀ i < part.length, file[offset + i]? = part[i]? := by
  constructor
  · intro h
    refine ⟨h.length_le, fun i hi => ?_⟩
    rw [← List.getElem?_drop, List.prefix_iff_getElem?.mp h.2 i hi, List.getElem?_eq_getElem hi]
  · rintro ⟨hlength, hget⟩
    refine ⟨by omega, List.prefix_iff_getElem?.mpr fun i hi => ?_⟩
    rw [List.getElem?_drop, hget i hi, List.getElem?_eq_getElem hi]

/-- A file with a part of it replaced. -/
def overwrite (file : Bytes) (offset : Nat) (part : Bytes) : Bytes :=
  file.take offset ++ part ++ file.drop (offset + part.length)

section Overwrite

variable {file part p : Bytes} {offset o : Nat}

theorem length_overwrite (h : offset + part.length ≤ file.length) :
    (file.overwrite offset part).length = file.length := by
  simp only [overwrite, List.length_append, List.length_take, List.length_drop]
  omega

theorem getElem?_overwrite (h : offset + part.length ≤ file.length) (i : Nat) :
    (file.overwrite offset part)[i]? =
      if offset ≤ i ∧ i < offset + part.length then part[i - offset]? else file[i]? := by
  have htake : (file.take offset).length = offset := by
    rw [List.length_take]
    omega
  by_cases hbefore : i < offset
  · rw [if_neg (by omega), overwrite, List.append_assoc, List.getElem?_append_left (by omega),
      List.getElem?_take_of_lt hbefore]
  · by_cases hin : i < offset + part.length
    · rw [if_pos (by omega), overwrite, List.append_assoc, List.getElem?_append_right (by omega),
        htake, List.getElem?_append_left (by omega)]
    · rw [if_neg (by omega), overwrite, List.append_assoc, List.getElem?_append_right (by omega),
        htake, List.getElem?_append_right (by omega), List.getElem?_drop]
      congr 1
      omega

theorem hasAt_overwrite (h : offset + part.length ≤ file.length) :
    (file.overwrite offset part).HasAt offset part := by
  rw [hasAt_iff_getElem?, length_overwrite h]
  refine ⟨h, fun i hi => ?_⟩
  rw [getElem?_overwrite h, if_pos (by omega), Nat.add_sub_cancel_left]

/-- What stands elsewhere stays. -/
theorem HasAt.overwrite (hp : file.HasAt o p) (h : offset + part.length ≤ file.length)
    (hapart : o + p.length ≤ offset ∨ offset + part.length ≤ o) :
    (file.overwrite offset part).HasAt o p := by
  rw [hasAt_iff_getElem?] at hp ⊢
  rw [length_overwrite h]
  refine ⟨hp.1, fun i hi => ?_⟩
  rw [getElem?_overwrite h, if_neg (by omega), hp.2 i hi]

end Overwrite

@[simp] theorem length_ofWord16 (w : UInt16) : (ofWord16 w).length = 2 := rfl

@[simp] theorem length_ofWord32 (w : UInt32) : (ofWord32 w).length = 4 := rfl

theorem length_flatMap_record {α : Type} {bytes : α → Bytes} {size : Nat} (xs : List α)
    (h : ∀ x, (bytes x).length = size) : (xs.flatMap bytes).length = xs.length * size := by
  simp [List.length_flatMap, h, List.map_const']

end Bytes

namespace Container

open Bytes

/-! ### What is laid out -/

/-- A vertex of the store: signed coordinates, channels of a colour, and a word without use. -/
structure VertexRecord where
  x : Int16
  y : Int16
  z : Int16
  unused : UInt16
  u : Int16
  v : Int16
  red : UInt8
  green : UInt8
  blue : UInt8
  alpha : UInt8

namespace VertexRecord

def bytes (r : VertexRecord) : Bytes :=
  ofWord16 r.x.toUInt16 ++ ofWord16 r.y.toUInt16 ++ ofWord16 r.z.toUInt16 ++ ofWord16 r.unused ++
    ofWord16 r.u.toUInt16 ++ ofWord16 r.v.toUInt16 ++ [r.red, r.green, r.blue, r.alpha]

/-- The vertex that a record stands for. -/
def vertex (r : VertexRecord) : Vertex where
  position := ⟨.ofInt r.x.toInt, .ofInt r.y.toInt, .ofInt r.z.toInt⟩
  uv := ⟨.ofInt r.u.toInt, .ofInt r.v.toInt⟩
  colour := ⟨r.red.toFloat32, r.green.toFloat32, r.blue.toFloat32, r.alpha.toFloat32⟩

@[simp] theorem length_bytes (r : VertexRecord) : r.bytes.length = 16 := rfl

end VertexRecord

/-- The code of a format in texture headers, which know five of them. -/
def headerCode? : TexelFormat → Option UInt16
  | .ci4 => some 0x01
  | .ci8 => some 0x02
  | .rgba16 => some 0x04
  | .rgba32 => some 0x08
  | .ia8 => some 0x10
  | _ => none

/-- The header of a texture, with a word and six bytes without use. -/
structure TextureHeader where
  dataOffset : UInt32
  format : TexelFormat
  code : UInt16
  code_eq : headerCode? format = some code
  flags : UInt16
  width : UInt8
  height : UInt8
  unused : Vector UInt8 6

namespace TextureHeader

def bytes (t : TextureHeader) : Bytes :=
  ofWord32 t.dataOffset ++ ofWord16 t.code ++ ofWord16 t.flags ++ [t.width, t.height] ++
    t.unused.toList

/-- The texture of a header: nothing is known yet but what the header says. -/
def texture (t : TextureHeader) : Texture where
  dataOffset := t.dataOffset
  format := t.format
  width := t.width.toUInt32
  height := t.height.toUInt32
  tile := none
  ratio := ⟨0, 0⟩
  pixels := none
  palette := none

@[simp] theorem length_bytes (t : TextureHeader) : t.bytes.length = 16 := by
  simp [bytes]

end TextureHeader

/-- What a file is to hold, and where. -/
structure Layout where
  vertices : List VertexRecord
  textures : List TextureHeader
  textureData : Bytes
  commands : List Command
  textureSetup : UInt16
  displayListSetup : UInt32
  vertexSetup : UInt32
  collisionSetup : UInt32
  vertices_lt : vertices.length < 0x10000
  textures_lt : textures.length < 0x10000
  textureData_lt : textureData.length < 0x100000000
  commands_lt : commands.length < 0x100000000
  dataOffset_le : ∀ t ∈ textures, t.dataOffset.toNat ≤ textureData.length
  displayListSetup_ne : displayListSetup ≠ 0
  vertexSetup_ne : vertexSetup ≠ 0
  /-- Without a texture setup there are no textures. -/
  of_textureSetup : textureSetup = 0 → textures = [] ∧ textureData = []
  /-- The commands end before the collision setup, if there is one. -/
  collisionSetup_le : collisionSetup = 0 ∨
    displayListSetup.toNat + 8 + 8 * commands.length ≤ collisionSetup.toNat

/-- Bytes that stand at an offset. -/
structure Field where
  offset : Nat
  bytes : Bytes

namespace Field

/-- Where a field ends. -/
def stop (f : Field) : Nat :=
  f.offset + f.bytes.length

/-- One field ends before the other one starts. -/
def Apart (f g : Field) : Prop :=
  f.stop ≤ g.offset ∨ g.stop ≤ f.offset

end Field

/-- Puts fields in their places, one after the other. -/
def writeFields (fs : List Field) (file : Bytes) : Bytes :=
  fs.foldl (fun file f => file.overwrite f.offset f.bytes) file

section Fields

variable {file : Bytes} {p : Field}

/-- What stands apart from the fields that are put into a file stays. -/
theorem hasAt_writeFields_of_apart (fs : List Field) (hp : file.HasAt p.offset p.bytes)
    (hapart : ∀ f ∈ fs, p.Apart f) (hfit : ∀ f ∈ fs, f.stop ≤ file.length) :
    (writeFields fs file).HasAt p.offset p.bytes := by
  induction fs generalizing file with
  | nil => exact hp
  | cons f fs ih =>
    have hf : f.offset + f.bytes.length ≤ file.length := hfit f List.mem_cons_self
    refine ih (hp.overwrite hf (hapart f List.mem_cons_self))
      (fun g hg => hapart g (List.mem_cons_of_mem _ hg)) fun g hg => ?_
    rw [length_overwrite hf]
    exact hfit g (List.mem_cons_of_mem _ hg)

theorem hasAt_writeFields (fs : List Field) (hapart : fs.Pairwise Field.Apart)
    (hfit : ∀ f ∈ fs, f.stop ≤ file.length) (hp : p ∈ fs) :
    (writeFields fs file).HasAt p.offset p.bytes := by
  induction fs generalizing file with
  | nil => cases hp
  | cons f fs ih =>
    have hf : f.offset + f.bytes.length ≤ file.length := hfit f List.mem_cons_self
    have hfit' : ∀ g ∈ fs, g.stop ≤ (file.overwrite f.offset f.bytes).length := by
      intro g hg
      rw [length_overwrite hf]
      exact hfit g (List.mem_cons_of_mem _ hg)
    obtain ⟨hhead, htail⟩ := List.pairwise_cons.mp hapart
    rcases List.mem_cons.mp hp with rfl | hmem
    · exact hasAt_writeFields_of_apart fs (hasAt_overwrite hf) hhead hfit'
    · exact ih htail hfit' hmem

end Fields

/-- A range of a file, and the fields in it. -/
structure Block where
  start : Nat
  stop : Nat
  fields : List Field
  within : ∀ f ∈ fields, start ≤ f.offset ∧ f.stop ≤ stop
  apart : fields.Pairwise Field.Apart

/-- One block ends before the other one starts. -/
def Block.Apart (a b : Block) : Prop :=
  a.stop ≤ b.start ∨ b.stop ≤ a.start

namespace Layout

variable (l : Layout)

def header : Block where
  start := 0
  stop := 0x20
  fields := [
    ⟨0, ofWord32 0x0000000B⟩,
    ⟨0x08, ofWord16 l.textureSetup⟩,
    ⟨0x0C, ofWord32 l.displayListSetup⟩,
    ⟨0x10, ofWord32 l.vertexSetup⟩,
    ⟨0x1C, ofWord32 l.collisionSetup⟩]
  within := by simp [Field.stop]
  apart := by simp [Field.Apart, Field.stop]

def textureBlock : Block where
  start := l.textureSetup.toNat
  stop := l.textureSetup.toNat + 8 + 16 * l.textures.length + l.textureData.length
  fields := [
    ⟨l.textureSetup.toNat, ofWord32 (.ofNat l.textureData.length)⟩,
    ⟨l.textureSetup.toNat + 4, ofWord16 (.ofNat l.textures.length)⟩,
    ⟨l.textureSetup.toNat + 8, l.textures.flatMap TextureHeader.bytes⟩,
    ⟨l.textureSetup.toNat + 8 + 16 * l.textures.length, l.textureData⟩]
  within := by
    simp [Field.stop, length_flatMap_record l.textures TextureHeader.length_bytes]
    omega
  apart := by
    simp [Field.Apart, Field.stop, length_flatMap_record l.textures TextureHeader.length_bytes]
    omega

def displayListBlock : Block where
  start := l.displayListSetup.toNat
  stop := l.displayListSetup.toNat + 8 + 8 * l.commands.length
  fields := [
    ⟨l.displayListSetup.toNat, ofWord32 (.ofNat l.commands.length)⟩,
    ⟨l.displayListSetup.toNat + 8, l.commands.flatMap fun c => c.bytes.toList⟩]
  within := by
    simp [Field.stop, length_flatMap_record l.commands fun c => c.bytes.length_toList]
    omega
  apart := by simp [Field.Apart, Field.stop]

def vertexBlock : Block where
  start := l.vertexSetup.toNat
  stop := l.vertexSetup.toNat + 0x18 + 16 * l.vertices.length
  fields := [
    ⟨l.vertexSetup.toNat + 0x16, ofWord16 (.ofNat l.vertices.length)⟩,
    ⟨l.vertexSetup.toNat + 0x18, l.vertices.flatMap VertexRecord.bytes⟩]
  within := by
    simp [Field.stop, length_flatMap_record l.vertices VertexRecord.length_bytes]
    omega
  apart := by simp [Field.Apart, Field.stop]

/-- The header and the blocks that it leads to. -/
def blocks : List Block :=
  [l.header, l.displayListBlock, l.vertexBlock] ++
    if l.textureSetup = 0 then [] else [l.textureBlock]

/-- A file has every field in its place. The bytes between fields may be any. -/
def HeldBy (file : Bytes) : Prop :=
  ∀ b ∈ l.blocks, ∀ f ∈ b.fields, file.HasAt f.offset f.bytes

instance (file : Bytes) : Decidable (l.HeldBy file) :=
  inferInstanceAs (Decidable (∀ b ∈ l.blocks, ∀ f ∈ b.fields, file.HasAt f.offset f.bytes))

/-- Every field of every block put in its place. -/
def write (background : Bytes) : Bytes :=
  writeFields (l.blocks.flatMap Block.fields) background

/-- The model that is laid out. -/
def model : Model where
  vertices := (l.vertices.map VertexRecord.vertex).toArray
  textures := (l.textures.map TextureHeader.texture).toArray
  commands := l.commands.toArray
  textureData := l.textureData

variable {l} {background : Bytes}

/-- Blocks that are apart can be written over any bytes that have room for them. -/
theorem heldBy_write (hapart : l.blocks.Pairwise Block.Apart)
    (hfit : ∀ b ∈ l.blocks, b.stop ≤ background.length) : l.HeldBy (l.write background) := by
  have hfields : (l.blocks.flatMap Block.fields).Pairwise Field.Apart := by
    refine List.pairwise_flatMap.mpr ⟨fun b _ => b.apart, hapart.imp fun {a b} hab f hf g hg => ?_⟩
    have hstop := (a.within f hf).2
    have hstart := (b.within g hg).1
    have hstop' := (b.within g hg).2
    have hstart' := (a.within f hf).1
    rcases hab with h | h
    · exact .inl (by omega)
    · exact .inr (by omega)
  intro b hb f hf
  refine hasAt_writeFields _ hfields (fun g hg => ?_) (List.mem_flatMap.mpr ⟨b, hb, hf⟩)
  obtain ⟨c, hc, hgc⟩ := List.mem_flatMap.mp hg
  exact Nat.le_trans (c.within g hgc).2 (hfit c hc)

end Layout

end Container

end DisplayList

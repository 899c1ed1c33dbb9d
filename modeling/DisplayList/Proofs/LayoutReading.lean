import DisplayList.Proofs.Layout
import DisplayList.Proofs.Singles

/-!
# Laid out files are read back

The reader follows the offsets in the header from block to block, and in each block it finds
a count and then as many records. In a file that holds a layout every one of these reads gives
back what was laid out, so the model is the one laid out, and its numbers are the numbers of
the records.
-/
namespace DisplayList

namespace Bytes

@[simp] theorem word16_ofWord16 (w : UInt16) :
    word16 (.ofNat (w.toNat / 256)) (.ofNat w.toNat) = w := by
  have := w.toNat_lt
  rw [← UInt16.toNat_inj, word16_toNat]
  simp only [UInt8.toNat_ofNat']
  omega

@[simp] theorem word32_ofWord32 (w : UInt32) :
    word32 (.ofNat (w.toNat / 16777216)) (.ofNat (w.toNat / 65536)) (.ofNat (w.toNat / 256))
      (.ofNat w.toNat) = w := by
  have := w.toNat_lt
  rw [← UInt32.toNat_inj, word32_toNat]
  simp only [UInt8.toNat_ofNat']
  omega

@[simp] theorem signed16_toUInt16 (i : Int16) : signed16 i.toUInt16 = i.toInt := by
  show _ = i.toBitVec.toInt
  have hword : i.toUInt16.toNat = i.toBitVec.toNat := rfl
  rw [signed16, hword, BitVec.toInt_eq_toNat_cond]
  split <;> split <;> omega

end Bytes

/-- The numbers of a vertex. -/
def Vertex.numbers (v : Vertex) : List Float32 :=
  [v.position.x, v.position.y, v.position.z, v.uv.u, v.uv.v,
    v.colour.red, v.colour.green, v.colour.blue, v.colour.alpha]

namespace Container

open Bytes

/-! ### Records -/

theorem ofHeaderCode?_headerCode? {format : TexelFormat} {code : UInt16}
    (h : headerCode? format = some code) : TexelFormat.ofHeaderCode? code.toNat = some format := by
  cases format <;> cases h <;> rfl

namespace VertexRecord

/-- The numbers in a record. -/
def numbers (r : VertexRecord) : List Int :=
  [r.x.toInt, r.y.toInt, r.z.toInt, r.u.toInt, r.v.toInt,
    r.red.toNat, r.green.toNat, r.blue.toNat, r.alpha.toNat]

theorem vertex_bytes (r : VertexRecord) : Reading.plain.vertex r.bytes = .ok r.vertex := by
  have hx : r.bytes.word16At 0 = r.x.toUInt16 := word16_ofWord16 _
  have hy : r.bytes.word16At 2 = r.y.toUInt16 := word16_ofWord16 _
  have hz : r.bytes.word16At 4 = r.z.toUInt16 := word16_ofWord16 _
  have hu : r.bytes.word16At 8 = r.u.toUInt16 := word16_ofWord16 _
  have hv : r.bytes.word16At 10 = r.v.toUInt16 := word16_ofWord16 _
  simp only [Reading.vertex, Reading.plain_word16At, hx, hy, hz, hu, hv, ok_bind, pure_bind,
    signed16_toUInt16]
  rfl

end VertexRecord

theorem TextureHeader.texture_bytes (t : TextureHeader) {size : Nat} (h : t.dataOffset.toNat ≤ size)
    (index : Nat) : Reading.plain.texture size index t.bytes = .ok t.texture := by
  have hoffset : t.bytes.word32At 0 = t.dataOffset := word32_ofWord32 _
  have hcode : t.bytes.word16At 4 = t.code := word16_ofWord16 _
  simp only [Reading.texture, Reading.plain_word32At, Reading.plain_word16At, hoffset, hcode,
    ok_bind, ofHeaderCode?_headerCode? t.code_eq, Reading.ensure, if_pos h]
  rfl

/-! ### Regions -/

section Reading

open Reading

variable {file part : Bytes} {offset : Nat}

theorem region_of_hasAt (h : file.HasAt offset part) (r : Region) {size : Nat}
    (hsize : part.length = size) : plain.region file r offset size = .ok part := by
  rw [plain_region, ← hsize, h.slice?]

theorem exists_region (r : Region) (size : Nat) (h : offset + size ≤ file.length) :
    ∃ part, plain.region file r offset size = .ok part :=
  ⟨_, by rw [plain_region, slice?_eq, if_pos h]⟩

theorem readWord16_of_hasAt {w : UInt16} (h : file.HasAt offset (ofWord16 w)) (r : Region) :
    plain.readWord16 file r offset = .ok w.toNat := by
  have hword : (ofWord16 w).word16At 0 = w := word16_ofWord16 w
  rw [plain_readWord16, region_of_hasAt h r (length_ofWord16 w), Except.map, hword]

theorem readWord32_of_hasAt {w : UInt32} (h : file.HasAt offset (ofWord32 w)) (r : Region) :
    plain.readWord32 file r offset = .ok w.toNat := by
  have hword : (ofWord32 w).word32At 0 = w := word32_ofWord32 w
  rw [plain_readWord32, region_of_hasAt h r (length_ofWord32 w), Except.map, hword]

/-- Records put one after the other are cut where they meet. -/
theorem records_flatMap {α : Type} {bytes : α → Bytes} {size : Nat} (xs : List α)
    (h : ∀ x, (bytes x).length = size) :
    records size xs.length (xs.flatMap bytes) = xs.map bytes := by
  induction xs with
  | nil => rfl
  | cons x xs ih =>
    rw [List.length_cons, records, List.flatMap_cons, List.take_left' (h x), List.drop_left' (h x),
      ih, List.map_cons]

theorem ofBytes_append (c : Command) (rest : Bytes) :
    Command.ofBytes (c.bytes.toList ++ rest) = c :: Command.ofBytes rest := by
  obtain ⟨⟨⟨bytes⟩, hsize⟩⟩ := c
  match bytes, hsize with
  | [_, _, _, _, _, _, _, _], rfl => rfl

theorem ofBytes_flatMap (cs : List Command) :
    Command.ofBytes (cs.flatMap fun c => c.bytes.toList) = cs := by
  induction cs with
  | nil => rfl
  | cons c cs ih => rw [List.flatMap_cons, ofBytes_append, ih]

theorem texturesFrom_headers {size : Nat} (ts : List TextureHeader)
    (h : ∀ t ∈ ts, t.dataOffset.toNat ≤ size) (index : Nat) :
    (plain.texturesFrom size index (ts.map TextureHeader.bytes)).result =
      .ok (ts.map TextureHeader.texture) := by
  induction ts generalizing index with
  | nil => rfl
  | cons t ts ih =>
    have hrest := ih (fun u hu => h u (List.mem_cons_of_mem _ hu)) (index + 1)
    simp only [List.map_cons, texturesFrom, Logged.result_bind, Logged.result_liftM,
      t.texture_bytes (h t List.mem_cons_self), Logged.result_note, Logged.result_pure, ok_bind,
      hrest]

end Reading

namespace Layout

open Reading

variable {l : Layout} {file background : Bytes}

theorem readTextures_of_heldBy (h : l.HeldBy file) :
    (plain.readTextures file l.textureSetup.toNat).result =
      .ok (l.model.textures, l.model.textureData) := by
  by_cases hsetup : l.textureSetup = 0
  · obtain ⟨htextures, hdata⟩ := l.of_textureSetup hsetup
    simp [readTextures, hsetup, model, htextures, hdata]
  · have hblock := h l.textureBlock (by simp [blocks, hsetup])
    simp only [textureBlock, List.forall_mem_cons] at hblock
    obtain ⟨hsize, hcount, hheaders, hdata, -⟩ := hblock
    have hne : l.textureSetup.toNat ≠ 0 := by
      simpa [← UInt16.toNat_inj] using hsetup
    have hsizeNat : (UInt32.ofNat l.textureData.length).toNat = l.textureData.length :=
      UInt32.toNat_ofNat_of_lt' l.textureData_lt
    have hcountNat : (UInt16.ofNat l.textures.length).toNat = l.textures.length :=
      UInt16.toNat_ofNat_of_lt' l.textures_lt
    have hlength := length_flatMap_record l.textures TextureHeader.length_bytes
    rw [Nat.mul_comm 16] at hdata
    simp only [readTextures, if_neg hne, readTextureSetup, Logged.result_bind, Logged.result_liftM,
      plain_addSizes, plain_mulSizes, readWord32_of_hasAt hsize, readWord16_of_hasAt hcount,
      ok_bind, hsizeNat, hcountNat, region_of_hasAt hheaders _ hlength, region_of_hasAt hdata _ rfl,
      records_flatMap l.textures TextureHeader.length_bytes,
      texturesFrom_headers l.textures l.dataOffset_le, Logged.result_pure]
    rfl

theorem readCommands_of_heldBy (h : l.HeldBy file) :
    plain.readCommands file l.displayListSetup.toNat l.collisionSetup.toNat =
      .ok l.model.commands := by
  have hblock := h l.displayListBlock (by simp [blocks])
  simp only [displayListBlock, List.forall_mem_cons] at hblock
  obtain ⟨hcount, hlist, -⟩ := hblock
  have hcountNat : (UInt32.ofNat l.commands.length).toNat = l.commands.length :=
    UInt32.toNat_ofNat_of_lt' l.commands_lt
  have hlength := length_flatMap_record l.commands fun c => c.bytes.length_toList
  have hcollision : l.displayListSetup.toNat < l.collisionSetup.toNat →
      l.displayListSetup.toNat + 8 + l.commands.length * 8 ≤ l.collisionSetup.toNat := by
    intro hlt
    rcases l.collisionSetup_le with hzero | hle
    · simp [hzero] at hlt
    · omega
  simp only [readCommands, plain_addSizes, plain_mulSizes, readWord32_of_hasAt hcount, ok_bind,
    hcountNat, region_of_hasAt hlist _ hlength, ensure, if_pos hcollision, plain_commands,
    ofBytes_flatMap]
  rfl

theorem readVertices_of_heldBy (h : l.HeldBy file) :
    plain.readVertices file l.vertexSetup.toNat = .ok l.model.vertices := by
  have hblock := h l.vertexBlock (by simp [blocks])
  simp only [vertexBlock, List.forall_mem_cons] at hblock
  obtain ⟨hcount, hstore, -⟩ := hblock
  have hcountNat : (UInt16.ofNat l.vertices.length).toNat = l.vertices.length :=
    UInt16.toNat_ofNat_of_lt' l.vertices_lt
  have hlength := length_flatMap_record l.vertices VertexRecord.length_bytes
  obtain ⟨setup, hsetup⟩ := exists_region .vertexStoreSetup 0x18 hstore.1
  have hvertices : (l.vertices.map VertexRecord.bytes).mapM plain.vertex =
      .ok (l.vertices.map VertexRecord.vertex) := by
    rw [List.mapM_map]
    exact mapM_eq_ok fun r _ => r.vertex_bytes
  simp only [readVertices, plain_addSizes, plain_mulSizes, hsetup, readWord16_of_hasAt hcount,
    ok_bind, hcountNat, region_of_hasAt hstore _ hlength,
    records_flatMap l.vertices VertexRecord.length_bytes, hvertices]
  rfl

/-- A file that holds what is laid out is read as what is laid out. -/
theorem load_of_heldBy (h : l.HeldBy file) : (Model.load file).result = .ok l.model := by
  have hblock := h l.header (by simp [blocks])
  simp only [header, List.forall_mem_cons] at hblock
  obtain ⟨hmagic, htextures, hlist, hvertices, hcollision, -⟩ := hblock
  have hlength : 0 + 0x20 ≤ file.length := by simpa using hcollision.length_le
  obtain ⟨whole, hwhole⟩ := exists_region .header 0x20 hlength
  have hlistNe : l.displayListSetup.toNat ≠ 0 := by
    simpa [← UInt32.toNat_inj] using l.displayListSetup_ne
  have hverticesNe : l.vertexSetup.toNat ≠ 0 := by
    simpa [← UInt32.toNat_inj] using l.vertexSetup_ne
  simp only [Model.load, load, Logged.result_bind, Logged.result_liftM, readWord32_of_hasAt hmagic,
    hwhole, readWord16_of_hasAt htextures, readWord32_of_hasAt hlist,
    readWord32_of_hasAt hvertices, readWord32_of_hasAt hcollision, ensure, ok_bind,
    if_pos hlistNe, if_pos hverticesNe, readTextures_of_heldBy h, readCommands_of_heldBy h,
    readVertices_of_heldBy h, Logged.result_note, Logged.result_pure]
  rfl

/-- Reading undoes writing, whatever is written over. -/
theorem load_write (hapart : l.blocks.Pairwise Block.Apart)
    (hfit : ∀ b ∈ l.blocks, b.stop ≤ background.length) :
    (Model.load (l.write background)).result = .ok l.model :=
  load_of_heldBy (heldBy_write hapart hfit)

/-- What is read has the very numbers of the records, none of them rounded. -/
theorem numbers_vertex (r : VertexRecord) :
    r.vertex.numbers.map Single.value? = r.numbers.map fun n : Int => some (n : ℚ) := by
  have hcoordinate (i : Int16) : Single.value? (.ofInt i.toInt) = some (i.toInt : ℚ) := by
    have := i.le_toInt
    have := i.toInt_lt
    exact Single.value?_ofInt (by omega)
  simp only [VertexRecord.vertex, Vertex.numbers, VertexRecord.numbers, List.map_cons,
    List.map_nil, hcoordinate, Single.value?_toFloat32, Int.cast_natCast]

/-- Every file that holds what is laid out, whatever else is in it, is read as the model that is
laid out, and none of the numbers is rounded. -/
theorem load_laid_out (l : Layout) :
    (∀ file, l.HeldBy file → (Model.load file).result = .ok l.model) ∧
    (∀ r ∈ l.vertices,
      r.vertex.numbers.map Single.value? = r.numbers.map fun n : Int => some (n : ℚ)) :=
  ⟨fun _ h => load_of_heldBy h, fun r _ => numbers_vertex r⟩

/-- A texture, a command and a vertex, the vertex store first and the display list last. -/
def sample : Layout where
  vertices := [⟨1, -1, -32768, 0xFFFF, 32, -32, 10, 20, 30, 255⟩]
  textures := [⟨2, .rgba16, 4, rfl, 0, 1, 1, .replicate 6 7⟩]
  textureData := [1, 2, 3, 4]
  commands := [.ofFields 6 0 0 0 0]
  textureSetup := 0x50
  displayListSetup := 0x70
  vertexSetup := 0x20
  collisionSetup := 0x80
  vertices_lt := by decide
  textures_lt := by decide
  textureData_lt := by decide
  commands_lt := by decide
  dataOffset_le := by decide
  displayListSetup_ne := by decide
  vertexSetup_ne := by decide
  of_textureSetup := by decide
  collisionSetup_le := by decide

theorem load_laid_out_sample :
    sample.HeldBy (sample.write (.replicate 0x88 0xFF)) ∧
    (Model.load (sample.write (.replicate 0x88 0xFF))).result = .ok sample.model ∧
    ∀ r ∈ sample.vertices,
      r.vertex.numbers.map Single.value? = r.numbers.map fun n : Int => some (n : ℚ) :=
  have hheld : sample.HeldBy (sample.write (.replicate 0x88 0xFF)) := by decide +kernel
  ⟨hheld, (load_laid_out sample).1 _ hheld, (load_laid_out sample).2⟩

end Layout

end Container

end DisplayList

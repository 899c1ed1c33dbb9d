import DisplayList.Proofs.Failures
import DisplayList.Proofs.Table

/-!
# The codec makes images and nothing else

One model is decoded with two codecs side by side. A texture that has no material yet is the same
in both tables, image and all, so both codecs are asked the same when it is first drawn. After
that its images may differ, but nothing that follows looks at them: no address, ratio, material or
report depends on an image.
-/
namespace DisplayList

/-- A texture without its image. -/
def Texture.unpainted (t : Texture) : Texture :=
  { t with pixels := none }

namespace TextureTable

/-- A table without images. -/
def unpainted (table : TextureTable) : TextureTable :=
  { table with textures := table.textures.map Texture.unpainted }

variable (table : TextureTable) (index position size : Nat) (c : Command) (data : Bytes)

@[simp] theorem unpainted_materials : table.unpainted.materials = table.materials := rfl

@[simp] theorem unpainted_requests : table.unpainted.requests = table.requests := rfl

@[simp] theorem size_unpainted : table.unpainted.textures.size = table.textures.size := by
  simp [unpainted]

@[simp] theorem getElem?_unpainted :
    table.unpainted.textures[index]? = table.textures[index]?.map Texture.unpainted := by
  simp [unpainted]

@[simp] theorem find?_unpainted (address : UInt32) :
    table.unpainted.find? address = table.find? address := by
  simp only [find?_eq, unpainted, Array.findIdx?_map]
  rfl

@[simp] theorem ratio_unpainted : table.unpainted.ratio index = table.ratio index := by
  rw [ratio, getElem?_unpainted, Option.map_map, ratio]
  rfl

/-- A change of a texture is made on a table without images just as well. -/
theorem unpainted_modify {f g : Texture → Texture} (h : ∀ t, (f t).unpainted = g t.unpainted) :
    (table.modify index f).unpainted = table.unpainted.modify index g := by
  simp only [unpainted, modify, TextureTable.mk.injEq, and_self, and_true]
  apply Array.ext_getElem?
  intro i
  simp only [Array.getElem?_map, Array.getElem?_modify]
  split
  · cases table.textures[i]? <;> simp [h]
  · rfl

theorem modify_id : table.modify index id = table := by
  obtain ⟨textures, materials, requests⟩ := table
  simp only [modify, TextureTable.mk.injEq, and_self, and_true]
  apply Array.ext_getElem?
  intro i
  simp [Array.getElem?_modify]

/-- A new image does not show in a table without images. -/
theorem unpainted_modify_pixels (image : PixelBuffer) :
    (table.modify index fun t => { t with pixels := some image }).unpainted = table.unpainted := by
  have hid := unpainted_modify table index (g := id) fun t : Texture =>
    (rfl : Texture.unpainted { t with pixels := some image } = id t.unpainted)
  rw [hid, modify_id]

theorem unpainted_grow (address : UInt32) (format : TexelFormat) :
    (table.grow address format).unpainted = table.unpainted.grow address format := by
  simp [unpainted, grow, Texture.unpainted]

theorem unpainted_select : (table.select position c).1.unpainted =
    (table.unpainted.select position c).1 := by
  rw [select_eq, select_eq, find?_unpainted]
  cases table.find? c.address <;> simp [unpainted_grow]

theorem select_snd_unpainted : (table.unpainted.select position c).2 =
    (table.select position c).2 := by
  rw [select_eq, select_eq, find?_unpainted]
  cases table.find? c.address <;> simp

/-- Whatever the codec says, a table without images only notes that it was asked. -/
theorem unpainted_paint (codec : Codec) (t : Texture) :
    (table.paint codec data index t).1.unpainted = (t.request? data).elim table.unpainted
      fun q => { table.unpainted with requests := table.requests.push q } := by
  unfold paint Texture.request?
  split
  · rfl
  · dsimp only [Option.elim_some]
    split
    · rw [unpainted_modify_pixels]
      rfl
    · rfl

/-- Painting a texture leaves all others alone. -/
theorem getElem?_textures_paint (codec : Codec) (t : Texture) {i : Nat} (hi : i ≠ index) :
    (table.paint codec data index t).1.textures[i]? = table.textures[i]? := by
  unfold paint
  split
  · rfl
  · dsimp only
    split
    · simp [modify, Array.getElem?_modify, hi.symm]
    · rfl

/-- Once a texture has its material, the textures without one are the others without one. -/
theorem materialOf?_push_eq_none_iff (wrapS wrapT : WrapMode) (i : Nat) :
    ({ table with materials := table.materials.push (.forTexture index wrapS wrapT) } :
      TextureTable).materialOf? i = none ↔ table.materialOf? i = none ∧ i ≠ index := by
  simp only [materialOf?, Array.findIdx?_eq_none_iff, Array.mem_push, Material.forTexture]
  constructor
  · intro h
    refine ⟨fun x hx => h x (.inl hx), ?_⟩
    rintro rfl
    simpa using h _ (.inr rfl)
  · intro h x hx
    rcases hx with hx | rfl
    · exact h.1 x hx
    · simpa using h.2.symm

/-- Two tables with the same textures but for the images of those with a material. -/
structure Alike (a b : TextureTable) : Prop where
  unpainted_eq : b.unpainted = a.unpainted
  unseen : ∀ i : Nat, a.materialOf? i = none → b.textures[i]? = a.textures[i]?

namespace Alike

variable {a b : TextureTable} (h : a.Alike b)

include h

theorem materials_eq : b.materials = a.materials := by
  rw [← unpainted_materials, h.unpainted_eq, unpainted_materials]

theorem requests_eq : b.requests = a.requests := by
  rw [← unpainted_requests, h.unpainted_eq, unpainted_requests]

theorem materialOf?_eq (i : Nat) : b.materialOf? i = a.materialOf? i := by
  rw [materialOf?, materialOf?, h.materials_eq]

theorem find?_eq (address : UInt32) : b.find? address = a.find? address := by
  rw [← find?_unpainted, h.unpainted_eq, find?_unpainted]

theorem ratio_eq (i : Nat) : b.ratio i = a.ratio i := by
  rw [← ratio_unpainted, h.unpainted_eq, ratio_unpainted]

theorem size_eq : b.textures.size = a.textures.size := by
  rw [← size_unpainted, h.unpainted_eq, size_unpainted]

theorem getElem?_eq (i : Nat) : b.textures[i]?.map Texture.unpainted =
    a.textures[i]?.map Texture.unpainted := by
  rw [← getElem?_unpainted, h.unpainted_eq, getElem?_unpainted]

theorem select_snd_eq (position : Nat) (c : Command) :
    (b.select position c).2 = (a.select position c).2 := by
  rw [← select_snd_unpainted, h.unpainted_eq, select_snd_unpainted]

theorem modify (index : Nat) {f : Texture → Texture}
    (hf : ∀ t, (f t).unpainted = f t.unpainted) : (a.modify index f).Alike (b.modify index f) where
  unpainted_eq := by
    rw [unpainted_modify a index hf, unpainted_modify b index hf, h.unpainted_eq]
  unseen i hi := by
    simp only [TextureTable.modify, Array.getElem?_modify, h.unseen i hi]

theorem select (position : Nat) (c : Command) :
    (a.select position c).1.Alike (b.select position c).1 where
  unpainted_eq := by
    rw [unpainted_select, unpainted_select, h.unpainted_eq]
  unseen i hi := by
    rw [select_eq] at hi
    rw [select_eq, select_eq, h.find?_eq]
    cases hfind : a.find? c.address with
    | some index =>
      rw [hfind] at hi
      exact h.unseen i hi
    | none =>
      rw [hfind] at hi
      simp only [grow, Array.getElem?_push, h.size_eq, h.unseen i hi]

theorem bind (position : Nat) (c : Command) (tile : Option Tile) (sScale tScale : Float32) :
    (a.bind position c tile sScale tScale).1.Alike (b.bind position c tile sScale tScale).1 := by
  simp only [TextureTable.bind_eq, h.select_snd_eq position c]
  refine (h.select position c).modify _ fun t => ?_
  cases tile <;> rfl

theorem setTile (index : Nat) (tile : Tile) : (a.setTile index tile).Alike (b.setTile index tile) :=
  h.modify index fun _ => rfl

/-- A palette is cut out of the data in the same place, or missing in both. -/
theorem loadPalette (data : Bytes) (position index size : Nat) :
    (a.loadPalette data position index size).1.Alike (b.loadPalette data position index size).1 ∧
      (b.loadPalette data position index size).2 = (a.loadPalette data position index size).2 := by
  have hslice (table : TextureTable) :
      (table.textures[index]?.bind fun t => data.slice? t.dataOffset.toNat size) =
        table.unpainted.textures[index]?.bind fun t => data.slice? t.dataOffset.toNat size := by
    rw [getElem?_unpainted, Option.bind_map]
    rfl
  rw [loadPalette_eq, loadPalette_eq, hslice b, h.unpainted_eq, ← hslice a]
  cases a.textures[index]?.bind fun t => data.slice? t.dataOffset.toNat size with
  | none => exact ⟨h, rfl⟩
  | some palette => exact ⟨h.modify index fun _ => rfl, rfl⟩

/-- A texture that is new to both tables is asked for in both, as it stands in both. -/
theorem paint (codec codec' : Codec) (data : Bytes) (index : Nat) (t : Texture)
    (wrapS wrapT : WrapMode) :
    Alike
      { (a.paint codec data index t).1 with
        materials := (a.paint codec data index t).1.materials.push
          (.forTexture index wrapS wrapT) }
      { (b.paint codec' data index t).1 with
        materials := (b.paint codec' data index t).1.materials.push
          (.forTexture index wrapS wrapT) } where
  unpainted_eq := by
    have hpaint : (b.paint codec' data index t).1.unpainted =
        (a.paint codec data index t).1.unpainted := by
      rw [unpainted_paint, unpainted_paint, h.unpainted_eq, h.requests_eq]
    exact congrArg (fun table : TextureTable =>
      { table with materials := table.materials.push (.forTexture index wrapS wrapT) }) hpaint
  unseen i hi := by
    rw [materialOf?_push_eq_none_iff] at hi
    obtain ⟨hnone, hi⟩ := hi
    rw [materialOf?, paint_materials] at hnone
    exact (getElem?_textures_paint _ _ _ _ _ hi).trans
      ((h.unseen i hnone).trans (getElem?_textures_paint _ _ _ _ _ hi).symm)

/-- Both tables have the same material for a texture, and one is made in both or in none. -/
theorem materialFor (codec codec' : Codec) (data : Bytes) (index : Nat) (wrapS wrapT : WrapMode) :
    (a.materialFor codec data index wrapS wrapT).1.Alike
        (b.materialFor codec' data index wrapS wrapT).1 ∧
      (b.materialFor codec' data index wrapS wrapT).2.1 =
        (a.materialFor codec data index wrapS wrapT).2.1 := by
  have htextures := h.getElem?_eq index
  cases ht : a.textures[index]? with
  | none =>
    have hb : b.textures[index]? = none := by simpa [ht] using htextures
    rw [materialFor_of_none codec wrapS wrapT ht, materialFor_of_none codec' wrapS wrapT hb]
    exact ⟨h, rfl⟩
  | some t =>
    cases hm : a.materialOf? index with
    | some material =>
      obtain ⟨u, hu, -⟩ : ∃ u, b.textures[index]? = some u ∧ u.unpainted = t.unpainted := by
        simpa [ht] using htextures
      rw [materialFor_of_some codec wrapS wrapT ht hm,
        materialFor_of_some codec' wrapS wrapT hu ((h.materialOf?_eq index).trans hm)]
      exact ⟨h, rfl⟩
    | none =>
      -- the texture is new to both, so its image, if it has one, is the same in both
      rw [materialFor_of_new codec wrapS wrapT ht hm, materialFor_of_new codec' wrapS wrapT
        ((h.unseen index hm).trans ht) ((h.materialOf?_eq index).trans hm)]
      refine ⟨h.paint codec codec' data index t wrapS wrapT, ?_⟩
      rw [paint_materials, paint_materials, h.materials_eq]

end Alike

end TextureTable

/-- The problems that do not come from a codec. -/
def Diagnostic.withoutRefusals (ds : List Diagnostic) : List Diagnostic :=
  ds.filter fun d => d.kind ≠ .textureDecode

@[simp] theorem Diagnostic.withoutRefusals_append (ds es : List Diagnostic) :
    withoutRefusals (ds ++ es) = withoutRefusals ds ++ withoutRefusals es :=
  List.filter_append ..

theorem Diagnostic.withoutRefusals_eq_nil {ds : List Diagnostic}
    (h : ∀ e ∈ ds, e.kind = .textureDecode) : withoutRefusals ds = [] :=
  List.filter_eq_nil_iff.mpr (by simpa using h)

namespace Decoder

open Diagnostic

/-- Two decoders that differ at most in images and in what a codec refused. -/
structure Alike (d e : Decoder) : Prop where
  state_eq : e.state = d.state
  recording_eq : e.recording = d.recording
  table : d.table.Alike e.table
  reports : withoutRefusals e.diagnostics = withoutRefusals d.diagnostics

namespace Alike

variable {d e : Decoder} (h : Alike d e) (m : Model) (codec codec' : Codec) (position : Nat)
  (c : Command)

include h

theorem bindTexture : Alike (d.bindTexture m position c) (e.bindTexture m position c) where
  state_eq := by
    simp only [Decoder.bindTexture_eq, bindWith_state, h.state_eq, h.table.select_snd_eq position c]
  recording_eq := h.recording_eq
  table := by
    simp only [Decoder.bindTexture_eq, bindWith_table, h.state_eq]
    exact h.table.bind ..
  reports := by
    have hreports := h.reports
    simp only [diagnostics] at hreports
    simp only [Decoder.bindTexture_eq, diagnostics, bindWith_journal, Journal.diagnostics_append,
      withoutRefusals_append, hreports, h.table.select_snd_eq position c]

theorem setTile (tile : Tile) : Alike (d.setTile tile) (e.setTile tile) where
  state_eq := congrArg (DrawState.applyTile · tile) h.state_eq
  recording_eq := h.recording_eq
  table := by
    simp only [Decoder.setTile, h.state_eq]
    exact h.table.setTile ..
  reports := h.reports

theorem loadPalette : Alike (d.loadPalette m position c) (e.loadPalette m position c) := by
  obtain ⟨htable, hjournal⟩ := h.table.loadPalette m.textureData position d.state.texture
    (Command.paletteLength c.operand)
  refine ⟨?_, h.recording_eq, ?_, ?_⟩
  · simp only [loadPalette_state, h.state_eq]
  · simpa only [loadPalette_table, h.state_eq] using htable
  · have hreports := h.reports
    simp only [diagnostics] at hreports
    simp only [diagnostics, loadPalette_journal, Journal.diagnostics_append,
      withoutRefusals_append, hreports, h.state_eq, hjournal]

theorem takeMaterial (b : Boundary) :
    (d.takeMaterial m codec b).1.Alike (e.takeMaterial m codec' b).1 ∧
      (e.takeMaterial m codec' b).2.1 = (d.takeMaterial m codec b).2.1 := by
  cases b with
  | null => exact ⟨h.table, rfl⟩
  | texture =>
    simp only [Decoder.takeMaterial, h.state_eq]
    exact h.table.materialFor codec codec' ..

theorem loadVertices :
    Alike (d.loadVertices m codec position c) (e.loadVertices m codec' position c) where
  state_eq := by
    simp only [loadVertices_state, loadWindow_state, h.state_eq]
  recording_eq := by
    rw [loadVertices_recording, loadVertices_recording, h.state_eq, h.recording_eq]
    cases d.state.boundary? with
    | none => rfl
    | some b => simp only [Option.elim_some, (h.takeMaterial m codec codec' b).2]
  table := by
    rw [loadVertices_table, loadVertices_table, h.state_eq]
    cases d.state.boundary? with
    | none => exact h.table
    | some b => exact (h.takeMaterial m codec codec' b).1
  reports := by
    rw [loadVertices_diagnostics, loadVertices_diagnostics, withoutRefusals_append,
      withoutRefusals_append, withoutRefusals_append, withoutRefusals_append,
      withoutRefusals_eq_nil fun e => kind_of_mem_takeMaterial,
      withoutRefusals_eq_nil fun e => kind_of_mem_takeMaterial, h.reports, h.state_eq]

theorem drawTriangle (epoch : UInt32) (slots : Triangle Nat) :
    Alike (drawTriangle m position epoch d slots) (drawTriangle m position epoch e slots) := by
  have hwindow := congrArg (fun s : DrawState => s.window.resolveTriangle epoch slots) h.state_eq
  cases hd : d.state.window.resolveTriangle epoch slots with
  | ok vertices =>
    rw [drawTriangle_of_ok m position hd, drawTriangle_of_ok m position (hwindow.trans hd)]
    refine ⟨h.state_eq, ?_, h.table, h.reports⟩
    simp only [h.recording_eq, h.state_eq, h.table.ratio_eq]
  | error fault =>
    rw [drawTriangle_of_error m position hd, drawTriangle_of_error m position (hwindow.trans hd)]
    refine ⟨h.state_eq, h.recording_eq, h.table, ?_⟩
    simp [h.reports]

theorem drawFaces (opcode : Opcode) (faces : List (Triangle Nat)) :
    Alike (d.drawFaces m position opcode faces).2 (e.drawFaces m position opcode faces).2 := by
  rw [drawFaces_eq, drawFaces_eq, h.recording_eq]
  cases d.recording.epoch? with
  | none => exact h
  | some epoch => exact List.foldl_rel h fun slots _ _ _ h => h.drawTriangle m position epoch slots

/-- Whatever a command does with one codec it does with the other, but for images. -/
theorem step : Alike (d.step m codec position c).2 (e.step m codec' position c).2 := by
  have hstate (f : DrawState → DrawState) :
      Alike { d with state := f d.state } { e with state := f e.state } :=
    ⟨congrArg f h.state_eq, h.recording_eq, h.table, h.reports⟩
  cases ho : c.opcode? with
  | none => simpa only [Decoder.step_eq, ho] using h
  | some o =>
    cases o <;> simp only [Decoder.step_eq, ho]
    case loadVertices => exact h.loadVertices m codec codec' position c
    case groupStart => exact h
    case drawQuad => exact h.drawFaces m position _ _
    case selectNull => exact hstate DrawState.selectNull
    case newTexture => exact h
    case setScale => exact hstate (DrawState.setScales · c.operand)
    case drawTriangle => exact h.drawFaces m position _ _
    case loadPalette => exact h.loadPalette m position c
    case setTile => exact h.setTile c.tile
    case bindTexture => exact h.bindTexture m position c

end Alike

/-- Runs of one model stay alike whatever the codecs are. -/
theorem alike_before (m : Model) (codec codec' : Codec) (p : Nat) :
    Alike (before m codec p) (before m codec' p) :=
  before_lockstep rfl ⟨rfl, rfl, ⟨rfl, fun _ _ => rfl⟩, rfl⟩
    (fun q c _ _ _ h => h.step m codec codec' q c) p

end Decoder

namespace Model

open Diagnostic

/-- A model that is decoded with one codec is decoded with every other, to the same materials,
meshes and textures but for the images of these, with the same requests to the codec and the same
reports but for what the codec refuses. -/
theorem codec_affects_only_images (m : Model) (codec codec' : Codec) (limit : Nat) (out : Decoded)
    (h : (m.decode codec limit).result = .ok out) :
    ∃ out', (m.decode codec' limit).result = .ok out' ∧
      out'.scene.materials = out.scene.materials ∧ out'.scene.meshes = out.scene.meshes ∧
      out'.scene.textures.map Texture.unpainted = out.scene.textures.map Texture.unpainted ∧
      out'.requests = out.requests ∧
      withoutRefusals out'.diagnostics = withoutRefusals out.diagnostics := by
  obtain ⟨hfailure, rfl⟩ := (decode_eq_ok_iff codec).mp h
  have halike := Decoder.alike_before m codec codec' m.commands.size
  refine ⟨_, (decode_eq_ok_iff codec').mpr ⟨hfailure, rfl⟩, halike.table.materials_eq, ?_,
    congrArg TextureTable.textures halike.table.unpainted_eq, halike.table.requests_eq, ?_⟩
  · exact congrArg (Recording.meshes · m.vertices) halike.recording_eq
  · simp only [Decoder.decoded, withoutRefusals_append, Decoder.finish_diagnostics,
      Decoder.finish_recording, halike.reports, halike.recording_eq]

/-- A triangle in a texture, one in none and one in the same texture again. -/
def sampleAgain : Model where
  vertices := .replicate 3 {}
  textures := #[{ dataOffset := 0, format := .rgba16, width := 2, height := 1 }]
  commands := #[.ofFields 253 16 0 0 0, .ofFields 4 0 12 0 0, .ofFields 191 0 0 0 0x204,
    .ofFields 182 0 0 0 0, .ofFields 4 0 12 0 0, .ofFields 191 0 0 0 0x204,
    .ofFields 253 16 0 0 0, .ofFields 4 0 12 0 0, .ofFields 191 0 0 0 0x204]
  textureData := [255, 255, 0, 1]

/-- The codec for the packed formats makes an image of the texture; the other one refuses. -/
theorem codec_affects_only_images_again :
    ∃ out, (sampleAgain.decode .packed 9).result = .ok out ∧
    ∃ out', (sampleAgain.decode (fun _ _ => .error (.shortData 4 0)) 9).result = .ok out' ∧
      out'.scene.materials = out.scene.materials ∧ out'.scene.meshes = out.scene.meshes ∧
      out'.scene.textures.map Texture.unpainted = out.scene.textures.map Texture.unpainted ∧
      out'.requests = out.requests ∧
      withoutRefusals out'.diagnostics = withoutRefusals out.diagnostics :=
  ⟨_, rfl, codec_affects_only_images sampleAgain .packed _ 9 _ rfl⟩

end Model

end DisplayList

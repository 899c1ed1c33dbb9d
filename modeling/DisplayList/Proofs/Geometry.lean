import DisplayList.Proofs.Failures
import DisplayList.Proofs.Placement

/-!
# Geometry does not depend on textures

Two models with one display list and equally many vertices are decoded side by side. Their
textures and materials go apart, but which change is due, the epoch, the window and the faces of
all batches stay the same, and so do the reports about slots. Nothing else decides what the
meshes look like, apart from the contents of their vertices.
-/
namespace DisplayList

/-- A batch in no particular material. -/
def Batch.bare (b : Batch) : Batch :=
  { b with material := Material.nullIndex }

/-- A recording without its materials and with a pool of zeros. -/
def Recording.bare (r : Recording) : Recording :=
  ⟨r.batches.map Batch.bare, r.pool.map fun _ => .zero⟩

namespace Batch

variable (b : Batch)

@[simp] theorem bare_epoch : b.bare.epoch = b.epoch := rfl

@[simp] theorem bare_triangles : b.bare.triangles = b.triangles := rfl

@[simp] theorem bare_vertices : b.bare.vertices = b.vertices := rfl

@[simp] theorem bare_uvs : b.bare.uvs = b.uvs := rfl

@[simp] theorem bare_lowest? : b.bare.lowest? = b.lowest? := rfl

@[simp] theorem bare_highest? : b.bare.highest? = b.highest? := rfl

@[simp] theorem bare_isEmpty : b.bare.isEmpty = b.isEmpty := rfl

theorem bare_addFace (face : Triangle Corner) :
    (b.addFace face).bare = b.bare.addFace face := rfl

end Batch

namespace Recording

variable (r : Recording)

@[simp] theorem epoch?_bare : r.bare.epoch? = r.epoch? := by
  cases h : r.batches.back? <;> simp [epoch?, current?, bare, h]

@[simp] theorem bare_openBatch (material : Nat) (epoch : UInt32) :
    (r.openBatch material epoch).bare = r.bare.openBatch Material.nullIndex epoch := by
  simp [openBatch_eq, bare, Batch.bare]

theorem eq_of_toList {r s : Recording} (hbatches : r.batches.toList = s.batches.toList)
    (hpool : r.pool.toList = s.pool.toList) : r = s := by
  cases r
  cases s
  simp_all

@[simp] theorem bare_addTriangle (vertices : Triangle UInt32) (uvs : Triangle TexCoord) :
    (r.addTriangle vertices uvs).bare = r.bare.addTriangle vertices (uvs.map fun _ => .zero) := by
  rcases List.eq_nil_or_concat r.batches.toList with h | ⟨older, b, h⟩
  · obtain ⟨batches, pool⟩ := r
    have hempty : batches = #[] := by simpa using h
    simp [addTriangle_eq, bare, hempty]
  · rw [List.concat_eq_append] at h
    have hbare : r.bare.batches.toList = older.map Batch.bare ++ [b.bare] := by
      simp [bare, h]
    apply eq_of_toList
    · rw [toList_addTriangle hbare, bare, Array.toList_map, toList_addTriangle h]
      simp [bare, Batch.bare_addFace]
    · rw [pool_addTriangle hbare, bare, Array.toList_map, pool_addTriangle h]
      simp [bare]

end Recording

namespace Decoder

open Diagnostic

/-- Two decoders that differ at most in textures, materials and coordinates. -/
structure SameGeometry (d e : Decoder) : Prop where
  due : e.state.boundary? = d.state.boundary?
  epoch : e.state.epoch = d.state.epoch
  window : e.state.window = d.state.window
  recording : e.recording.bare = d.recording.bare
  reports : geometric e.diagnostics = geometric d.diagnostics

variable {m m' : Model} {codec codec' : Codec} {d e : Decoder} {position : Nat} {c : Command}

namespace SameGeometry

variable (h : SameGeometry d e)

include h

theorem epoch?_eq : e.recording.epoch? = d.recording.epoch? := by
  rw [← Recording.epoch?_bare, h.recording, Recording.epoch?_bare]

theorem slotReports_eq (hvertices : m'.vertices.size = m.vertices.size) :
    e.slotReports m' position c = d.slotReports m position c := by
  simp only [slotReports, hvertices, h.window, h.epoch?_eq]

/-- A face is drawn into both recordings or is reported in both journals. -/
theorem drawTriangle (epoch : UInt32) (slots : Triangle Nat) :
    SameGeometry (drawTriangle m position epoch d slots)
      (drawTriangle m' position epoch e slots) := by
  have hwindow := congrArg (fun w => w.resolveTriangle epoch slots) h.window
  cases hd : d.state.window.resolveTriangle epoch slots with
  | ok vertices =>
    rw [drawTriangle_of_ok m position hd, drawTriangle_of_ok m' position (hwindow.trans hd)]
    refine ⟨h.due, h.epoch, h.window, ?_, h.reports⟩
    simp [h.recording, Triangle.map]
  | error fault =>
    rw [drawTriangle_of_error m position hd, drawTriangle_of_error m' position (hwindow.trans hd)]
    refine ⟨h.due, h.epoch, h.window, h.recording, ?_⟩
    simp [h.reports]

theorem foldl_drawTriangle (epoch : UInt32) (faces : List (Triangle Nat)) :
    SameGeometry (faces.foldl (Decoder.drawTriangle m position epoch) d)
      (faces.foldl (Decoder.drawTriangle m' position epoch) e) :=
  List.foldl_rel h fun slots _ _ _ h => h.drawTriangle epoch slots

/-- Loads fill both windows alike and open a batch in both recordings or in none. -/
theorem loadVertices_eq (codec codec' : Codec) (position : Nat) (c : Command)
    (hvertices : m'.vertices.size = m.vertices.size) :
    (e.loadVertices m' codec' position c).state.epoch =
        (d.loadVertices m codec position c).state.epoch ∧
      (e.loadVertices m' codec' position c).state.window =
        (d.loadVertices m codec position c).state.window ∧
      (e.loadVertices m' codec' position c).recording.bare =
        (d.loadVertices m codec position c).recording.bare := by
  have hepoch : e.state.settle.epoch = d.state.settle.epoch := by
    simp only [DrawState.settle_eq, h.due, h.epoch]
  refine ⟨?_, ?_, ?_⟩
  · simpa only [loadVertices_state, loadWindow_state] using hepoch
  · simp only [loadVertices_state, loadWindow_state, h.window, hepoch, hvertices]
  · rw [loadVertices_recording, loadVertices_recording, h.due]
    cases d.state.boundary? with
    | none => exact h.recording
    | some b => simp [h.recording, hepoch]

/-- Whatever a command does to one decoder as far as geometry goes, it does to the other. -/
theorem step (hcommands : m'.commands = m.commands)
    (hvertices : m'.vertices.size = m.vertices.size) (hc : m.commands[position]? = some c) :
    SameGeometry (d.step m codec position c).2 (e.step m' codec' position c).2 := by
  have hd := step_effect m codec d position c
  have he := step_effect m' codec' e position c
  have hdue : (e.step m' codec' position c).2.state.boundary? =
      (d.step m codec position c).2.state.boundary? := by
    rw [hd.boundary?_eq hc, he.boundary?_eq (hcommands ▸ hc), h.due, Model.change?, Model.change?,
      hcommands]
  have hreports : geometric (e.step m' codec' position c).2.diagnostics =
      geometric (d.step m codec position c).2.diagnostics := by
    rw [hd.geometric_eq, he.geometric_eq, h.reports, h.slotReports_eq hvertices]
  by_cases ho : c.opcode? = some .loadVertices
  · obtain ⟨hepoch, hwindow, hrecording⟩ := h.loadVertices_eq codec codec' position c hvertices
    rw [← hd.eq_of_load ho, ← he.eq_of_load ho] at hepoch hwindow hrecording
    exact ⟨hdue, hepoch, hwindow, hrecording, hreports⟩
  · by_cases hf : c.faces = []
    · obtain ⟨hdwindow, hdepoch, hdrecording⟩ := hd.same_of_quiet ho hf
      obtain ⟨hewindow, heepoch, herecording⟩ := he.same_of_quiet ho hf
      refine ⟨hdue, ?_, ?_, ?_, hreports⟩
      · rw [heepoch, hdepoch, h.epoch]
      · rw [hewindow, hdwindow, h.window]
      · rw [herecording, hdrecording, h.recording]
    · rw [hd.eq_of_faces hf, he.eq_of_faces hf, h.epoch?_eq]
      cases d.recording.epoch? with
      | none => exact h
      | some epoch => exact h.foldl_drawTriangle epoch c.faces

end SameGeometry

/-- Runs over one display list and equally many vertices stay alike as far as geometry goes. -/
theorem sameGeometry_before (hcommands : m'.commands = m.commands)
    (hvertices : m'.vertices.size = m.vertices.size) (p : Nat) :
    SameGeometry (before m codec p) (before m' codec' p) :=
  before_lockstep hcommands ⟨rfl, rfl, rfl, rfl, rfl⟩
    (fun _ _ _ _ hc h => h.step hcommands hvertices hc) p

end Decoder

/-! ### Meshes and reports -/

/-- Two batches with the same faces in the same epoch. -/
structure Batch.SameFaces (a b : Batch) : Prop where
  epoch_eq : b.epoch = a.epoch
  vertices_eq : b.vertices = a.vertices
  uvs_eq : b.uvs = a.uvs
  lowest_eq : b.lowest? = a.lowest?
  highest_eq : b.highest? = a.highest?

/-- Two meshes with the same faces among equally many vertices from the same offset on. -/
structure Mesh.SameShape (a b : Mesh) : Prop where
  indexOffset_eq : b.indexOffset = a.indexOffset
  faces_eq : b.faces = a.faces
  vertexCount_eq : b.vertexCount = a.vertexCount

theorem Batch.sameFaces_of_bare {a b : Batch} (h : b.bare = a.bare) : a.SameFaces b := by
  refine ⟨?_, ?_, ?_, ?_, ?_⟩
  · rw [← bare_epoch, h, bare_epoch]
  · rw [← bare_vertices, h, bare_vertices]
  · rw [← bare_uvs, h, bare_uvs]
  · rw [← bare_lowest?, h, bare_lowest?]
  · rw [← bare_highest?, h, bare_highest?]

/-- Batches with the same faces make meshes of one shape, whatever their vertices hold. -/
theorem Mesh.sameShape_ofBatch {a b : Batch} (h : b.bare = a.bare) (store store' : Array Vertex)
    (pool pool' : Array TexCoord) (offset : UInt32) :
    (ofBatch store pool offset a).SameShape (ofBatch store' pool' offset b) := by
  have hfaces := Batch.sameFaces_of_bare h
  have htriangles : b.triangles = a.triangles := by
    rw [← Batch.bare_triangles, h, Batch.bare_triangles]
  cases hlow : a.lowest? with
  | none =>
    rw [ofBatch_of_lowest?_eq_none hlow,
      ofBatch_of_lowest?_eq_none (hfaces.lowest_eq.trans hlow)]
    exact ⟨rfl, rfl, rfl⟩
  | some lowest =>
    obtain ⟨highest, hhigh⟩ := Batch.exists_highest_of_lowest? hlow
    rw [ofBatch_eq_cut hlow hhigh,
      ofBatch_eq_cut (hfaces.lowest_eq.trans hlow) (hfaces.highest_eq.trans hhigh)]
    exact ⟨rfl, by rw [cut, cut, htriangles], by simp [cut, vertexCount]⟩

/-- A batch in its place and in no particular material. -/
def PlacedBatch.bare (p : PlacedBatch) : PlacedBatch :=
  { p with batch := p.batch.bare }

@[simp] theorem PlacedBatch.bare_batch (p : PlacedBatch) : p.bare.batch = p.batch.bare := rfl

@[simp] theorem PlacedBatch.bare_offset (p : PlacedBatch) : p.bare.offset = p.offset := rfl

namespace Recording

open Batch

theorem dueAfter_bare (bs : List Batch) : dueAfter (bs.map Batch.bare) = dueAfter bs := by
  simp [dueAfter, lastHighest?, List.filterMap_map, Function.comp_def]

/-- Materials play no part in where batches are placed. -/
theorem placed_bare (r : Recording) : r.bare.placed = r.placed.map PlacedBatch.bare := by
  rw [placed_eq, placed_eq]
  apply List.ext_getElem?
  intro k
  simp only [place, bare, Array.toList_map, List.getElem?_mapIdx, List.getElem?_map,
    ← List.map_take, dueAfter_bare, Option.map_map]
  rfl

theorem placementJournal_bare (r : Recording) : r.bare.placementJournal = r.placementJournal := by
  rw [placementJournal, placed_bare, List.filterMap_map]
  rfl

/-- Lists that look alike member by member correspond in order. -/
theorem forall₂_of_map_eq {α β : Type} {f : α → β} {as bs : List α} (h : bs.map f = as.map f) :
    List.Forall₂ (fun a b => f b = f a) as bs := by
  have hequal : List.Forall₂ Eq (as.map f) (bs.map f) := by
    rw [List.forall₂_eq_eq_eq, h]
  rw [List.forall₂_map_left_iff, List.forall₂_map_right_iff] at hequal
  exact hequal.imp fun _ _ => Eq.symm

variable {r s : Recording} (h : s.bare = r.bare)

include h in
theorem sameFaces : List.Forall₂ Batch.SameFaces r.batches.toList s.batches.toList := by
  have hbatches := congrArg (fun r => r.batches.toList) h
  simp only [bare, Array.toList_map] at hbatches
  exact (forall₂_of_map_eq hbatches).imp fun _ _ => Batch.sameFaces_of_bare

/-- Batches in the same place with the same faces have meshes of one shape, or none. -/
theorem sameShape_mesh? {p q : PlacedBatch} (h : q.bare = p.bare) (store store' : Array Vertex)
    (pool pool' : Array TexCoord) :
    Option.Rel Mesh.SameShape (p.mesh? store pool) (q.mesh? store' pool') := by
  have hbatch : q.batch.bare = p.batch.bare := by
    rw [← q.bare_batch, h, p.bare_batch]
  have hoffset : q.offset = p.offset := by
    rw [← q.bare_offset, h, p.bare_offset]
  have hempty : q.batch.isEmpty = p.batch.isEmpty := by
    rw [← Batch.bare_isEmpty, hbatch, Batch.bare_isEmpty]
  unfold PlacedBatch.mesh?
  rw [hempty, hoffset]
  split
  · exact .none
  · exact .some (Mesh.sameShape_ofBatch hbatch store store' pool pool' p.offset)

include h in
theorem sameShape (store store' : Array Vertex) : List.Forall₂ Mesh.SameShape
    (r.meshes store).toList (s.meshes store').toList := by
  have hplaced : s.placed.map PlacedBatch.bare = r.placed.map PlacedBatch.bare := by
    rw [← placed_bare, ← placed_bare, h]
  have hplaces : List.Forall₂ (fun p q => PlacedBatch.bare q = p.bare) r.placed s.placed :=
    forall₂_of_map_eq hplaced
  refine List.rel_filterMap ?_ hplaces
  intro p q hp
  exact sameShape_mesh? hp store store' r.pool s.pool

end Recording

namespace Model

open Diagnostic

/-- Models with one display list and equally many vertices fail alike, or come to the same batches
but for their materials, to meshes of the same shapes and to the same reports about geometry. The
contents of vertices, textures and texture data and the codec play no part in that. -/
theorem geometry_independent_of_textures (m m' : Model) (codec codec' : Codec) (limit : Nat)
    (hcommands : m'.commands = m.commands) (hvertices : m'.vertices.size = m.vertices.size) :
    (∃ e, (m.decode codec limit).result = .error e ∧
      (m'.decode codec' limit).result = .error e) ∨
    ∃ r r' out out', (Decoder.run m codec limit (.start m)).result = .ok r ∧
      (Decoder.run m' codec' limit (.start m')).result = .ok r' ∧
      (m.decode codec limit).result = .ok out ∧ (m'.decode codec' limit).result = .ok out' ∧
      List.Forall₂ Batch.SameFaces r.recording.batches.toList r'.recording.batches.toList ∧
      List.Forall₂ Mesh.SameShape out.scene.meshes.toList out'.scene.meshes.toList ∧
      geometric out'.diagnostics = geometric out.diagnostics := by
  have hfails : m'.failure? limit = m.failure? limit := failure?_congr hcommands
  cases hfailure : m.failure? limit with
  | some e =>
    rw [hfailure] at hfails
    exact .inl ⟨e, (decode_eq_error_iff codec).mpr hfailure,
      (decode_eq_error_iff codec').mpr hfails⟩
  | none =>
    rw [hfailure] at hfails
    have hsame : Decoder.SameGeometry (Decoder.before m codec m.commands.size)
        (Decoder.before m' codec' m'.commands.size) := by
      rw [hcommands]
      exact Decoder.sameGeometry_before hcommands hvertices _
    refine .inr ⟨_, _, _, _, (run_eq_ok_iff codec).mpr ⟨hfailure, rfl⟩,
      (run_eq_ok_iff codec').mpr ⟨hfails, rfl⟩, (decode_eq_ok_iff codec).mpr ⟨hfailure, rfl⟩,
      (decode_eq_ok_iff codec').mpr ⟨hfails, rfl⟩, Recording.sameFaces hsame.recording,
      Recording.sameShape hsame.recording m.vertices m'.vertices, ?_⟩
    have hjournal := congrArg Recording.placementJournal hsame.recording
    rw [Recording.placementJournal_bare, Recording.placementJournal_bare] at hjournal
    simp only [Decoder.decoded, geometric_append, Decoder.finish_diagnostics,
      Decoder.finish_recording, hsame.reports, hjournal]

/-- One triangle in a texture that the model has. -/
def sampleBound : Model where
  vertices := .replicate 4 {}
  textures := #[{ dataOffset := 0, format := .rgba16, width := 2, height := 1 }]
  commands := #[.ofFields 253 16 0 0 0, .ofFields 4 0 20 0 0, .ofFields 191 0 0 0 0x204]
  textureData := [255, 255, 0, 1]

/-- The same triangle in a texture that is not there, over other vertices. -/
def sampleUnbound : Model where
  vertices := .replicate 4 { position := ⟨1, 2, 3⟩, colour := ⟨0, 0, 0, 255⟩ }
  commands := sampleBound.commands

theorem geometry_independent_of_textures_unbound :
    sampleUnbound.commands = sampleBound.commands ∧
    sampleUnbound.vertices.size = sampleBound.vertices.size ∧
    ((∃ e, (sampleBound.decode .packed 3).result = .error e ∧
      (sampleUnbound.decode (fun _ _ => .error (.shortData 0 0)) 3).result = .error e) ∨
    ∃ r r' out out', (Decoder.run sampleBound .packed 3 (.start sampleBound)).result = .ok r ∧
      (Decoder.run sampleUnbound (fun _ _ => .error (.shortData 0 0)) 3
        (.start sampleUnbound)).result = .ok r' ∧
      (sampleBound.decode .packed 3).result = .ok out ∧
      (sampleUnbound.decode (fun _ _ => .error (.shortData 0 0)) 3).result = .ok out' ∧
      List.Forall₂ Batch.SameFaces r.recording.batches.toList r'.recording.batches.toList ∧
      List.Forall₂ Mesh.SameShape out.scene.meshes.toList out'.scene.meshes.toList ∧
      geometric out'.diagnostics = geometric out.diagnostics) :=
  have hvertices : sampleUnbound.vertices.size = sampleBound.vertices.size := by
    simp [sampleBound, sampleUnbound]
  ⟨rfl, hvertices,
    geometry_independent_of_textures sampleBound sampleUnbound .packed _ 3 rfl hvertices⟩

end Model

end DisplayList

import DisplayList.Proofs.FaceResolution
import DisplayList.Proofs.MeshLoops

/-!
# Meshes represent batches

Every vertex that a face uses was loaded from the store, so a mesh can hold all of the
store from its offset to the highest vertex of its batch. Counted from the offset,
its faces are those of the batch, whichever offset the batches before left.
-/
namespace DisplayList

namespace Batch

variable {b : Batch}

theorem flatMap_toList_getElem? {α : Type} {ts : List (Triangle α)} {t : Triangle α} {j c : Nat}
    (h : ts[j]? = some t) (hc : c < 3) :
    (ts.flatMap Triangle.toList)[3 * j + c]? = t.toList[c]? := by
  induction ts generalizing j with
  | nil => simp at h
  | cons a ts ih =>
    cases j with
    | zero =>
      obtain rfl : a = t := by simpa using h
      rw [List.flatMap_cons, List.getElem?_append_left (by simpa using hc), Nat.mul_zero,
        Nat.zero_add]
    | succ j =>
      rw [List.flatMap_cons, List.getElem?_append_right (by simp; omega), Triangle.length_toList,
        show 3 * (j + 1) + c - 3 = 3 * j + c by omega]
      exact ih (by simpa using h)

/-- The corners of the `j`-th face are the three from `3 * j` on. -/
theorem vertices_getElem? {t : Triangle Corner} {j c : Nat} (h : b.triangles[j]? = some t)
    (hc : c < 3) : b.vertices[3 * j + c]? = (t.toList.map Corner.vertex)[c]? := by
  rw [vertices, List.getElem?_map, List.getElem?_map, corners,
    flatMap_toList_getElem? (by simpa using h) hc]

end Batch

namespace Mesh

/-- A mesh holds the part of the store from its offset to the highest vertex of a batch, and
the faces of that batch, counted from the offset. -/
structure Represents (store : Array Vertex) (b : Batch) (mesh : Mesh) : Prop where
  material_eq : mesh.material = b.material
  colours_size : mesh.colours.size = mesh.positions.size
  uvs_size : mesh.uvs.size = mesh.positions.size
  positions_size : ∃ highest ∈ b.vertices, (∀ v ∈ b.vertices, v ≤ highest) ∧
    mesh.indexOffset.toNat + mesh.positions.size = highest.toNat + 1
  vertex : ∀ l < mesh.positions.size, ∃ v, store[mesh.indexOffset.toNat + l]? = some v ∧
    mesh.positions[l]? = some v.position ∧ mesh.colours[l]? = some v.colour
  faces_size : mesh.faces.size = b.triangles.size
  face : ∀ j t, mesh.faces[j]? = some t → ∀ c i, t.toList[c]? = some i →
    ∃ v, b.vertices[3 * j + c]? = some v ∧ i.toNat + mesh.indexOffset.toNat = v.toNat ∧
      i.toNat < mesh.positions.size

variable {store : Array Vertex} {b : Batch} {lowest highest : UInt32}

/-- The vertices from `start` to `highest` can be counted, since the word after the highest is still
a word. -/
theorem toNat_extent {start : UInt32} (h : start ≤ highest) (hword : highest.toNat + 1 < 2 ^ 32) :
    start.toNat + (highest - start + 1).toNat = highest.toNat + 1 := by
  have hlocal := toNat_sub_add_toNat h
  rw [UInt32.toNat_add, UInt32.toNat_one]
  omega

/-- The coordinates of a vertex come from the first corner there. -/
theorem uvs_cut (pool : Array TexCoord) {start : UInt32} {size l : Nat}
    (hlow : ∀ v ∈ b.vertices, start ≤ v) (hl : l < size) :
    (cut store pool start size b).uvs[l]? =
      some (((b.corners.find? fun c => c.vertex.toNat = start.toNat + l).bind
        fun c => pool[c.uv]?).getD .zero) := by
  have hat : ∀ c ∈ b.corners, decide ((c.vertex - start).toNat = l) =
      decide (c.vertex.toNat = start.toNat + l) := by
    intro c hc
    have hlocal := toNat_sub_add_toNat (hlow c.vertex (List.mem_map_of_mem hc))
    rw [decide_eq_decide]
    omega
  simp [cut, hl, firstUv, List.find?_congr hat]

/-- A mesh cut between bounds on the vertices of a batch represents it. -/
theorem represents_cut (pool : Array TexCoord) {start : UInt32} {size : Nat}
    (hmem : highest ∈ b.vertices) (hhigh : ∀ v ∈ b.vertices, v ≤ highest)
    (hlow : ∀ v ∈ b.vertices, start ≤ v) (hsize : start.toNat + size = highest.toNat + 1)
    (hstore : highest.toNat < store.size) : (cut store pool start size b).Represents store b := by
  refine ⟨rfl, by simp [cut], by simp [cut], ⟨highest, hmem, hhigh, by simpa [cut] using hsize⟩,
    ?_, by simp [cut], ?_⟩
  · intro l hl
    have hl' : l < size := by simpa [cut] using hl
    have hget : start.toNat + l < store.size := by omega
    refine ⟨store[start.toNat + l], Array.getElem?_eq_getElem hget, ?_, ?_⟩
    · simp [cut, hl', Model.vertexAt, hget]
    · simp [cut, hl', Model.vertexAt, hget]
  · intro j t ht c i hi
    obtain ⟨face, hface, rfl⟩ : ∃ face, b.triangles[j]? = some face ∧
        (face.map fun c => c.vertex - start) = t := by simpa [cut] using ht
    have hc : c < 3 := (List.getElem?_eq_some_iff.mp hi).1
    obtain ⟨v, hv, rfl⟩ : ∃ v, (face.toList.map Corner.vertex)[c]? = some v ∧ v - start = i := by
      simpa using hi
    rw [← Batch.vertices_getElem? hface hc] at hv
    have hvmem := List.mem_of_getElem? hv
    have hlocal := toNat_sub_add_toNat (hlow v hvmem)
    have hle := UInt32.le_iff_toNat_le.mp (hhigh v hvmem)
    refine ⟨v, hv, hlocal, ?_⟩
    simp only [cut, Array.size_map, Array.size_range]
    omega

/-- The mesh of a batch with faces is cut from the offset on, or from the lowest vertex if that
comes first, up to the highest one. -/
theorem exists_cut (hne : b.isEmpty = false) (hword : ∀ v ∈ b.vertices, v.toNat + 1 < 2 ^ 32)
    (store : Array Vertex) (pool : Array TexCoord) (offset : UInt32) :
    ∃ lowest ∈ b.vertices, ∃ highest ∈ b.vertices, ∃ size,
      (∀ v ∈ b.vertices, lowest ≤ v ∧ v ≤ highest) ∧
      (min offset lowest).toNat + size = highest.toNat + 1 ∧
      ofBatch store pool offset b = cut store pool (min offset lowest) size b := by
  obtain ⟨lowest, hlowest⟩ := Batch.exists_lowest hne
  obtain ⟨highest, hhighest⟩ := Batch.exists_highest hne
  obtain ⟨hlowmem, hlow⟩ := Batch.lowest?_eq_some_iff.mp hlowest
  obtain ⟨hhighmem, hhigh⟩ := Batch.highest?_eq_some_iff.mp hhighest
  have hstart : min offset lowest ≤ highest :=
    Std.le_trans Std.min_le_right (hlow highest hhighmem)
  exact ⟨lowest, hlowmem, highest, hhighmem, _, fun v hv => ⟨hlow v hv, hhigh v hv⟩,
    toNat_extent hstart (hword highest hhighmem), ofBatch_eq_cut hlowest hhighest store pool offset⟩

/-- A batch whose vertices are all in the store is represented by its mesh, wherever it is
placed. -/
theorem represents_ofBatch (pool : Array TexCoord) (offset : UInt32) (hne : b.isEmpty = false)
    (hstore : ∀ v ∈ b.vertices, v.toNat < store.size)
    (hword : ∀ v ∈ b.vertices, v.toNat + 1 < 2 ^ 32) :
    (ofBatch store pool offset b).Represents store b := by
  obtain ⟨lowest, -, highest, hmem, size, hbounds, hsize, hcut⟩ :=
    exists_cut hne hword store pool offset
  rw [hcut]
  exact represents_cut pool hmem (fun v hv => (hbounds v hv).2)
    (fun v hv => Std.le_trans Std.min_le_right (hbounds v hv).1) hsize (hstore highest hmem)

end Mesh

/-! ### From the batches of a run to the meshes of its scene -/

namespace Recording

theorem batches_placed (r : Recording) : r.placed.map PlacedBatch.batch = r.batches.toList := by
  apply List.ext_getElem
  · simp
  · intro i _ _
    simp [placed, withOffsets]

/-- The batches with faces and the meshes made of them correspond in order. -/
theorem forall₂_meshes {store : Array Vertex} {pool : Array TexCoord} {placed : List PlacedBatch}
    (hstore : ∀ p ∈ placed, ∀ v ∈ p.batch.vertices, v.toNat < store.size)
    (hword : ∀ p ∈ placed, ∀ v ∈ p.batch.vertices, v.toNat + 1 < 2 ^ 32) :
    List.Forall₂ (fun b mesh => Mesh.Represents store b mesh)
      ((placed.map PlacedBatch.batch).filter fun b => !b.isEmpty)
      (placed.filterMap (PlacedBatch.mesh? store pool)) := by
  induction placed with
  | nil => exact .nil
  | cons p placed ih =>
    have hrest := ih (fun q hq => hstore q (List.mem_cons_of_mem p hq))
      (fun q hq => hword q (List.mem_cons_of_mem p hq))
    cases he : p.batch.isEmpty with
    | true => simpa [PlacedBatch.mesh?, he] using hrest
    | false =>
      have hp := Mesh.represents_ofBatch pool p.offset he (hstore p List.mem_cons_self)
        (hword p List.mem_cons_self)
      simpa [PlacedBatch.mesh?, he] using ⟨hp, hrest⟩

end Recording

namespace Decoder

variable {m : Model} {codec : Codec} {p : Nat}

/-- Every vertex in the window is in the store and in the reach of an address. -/
theorem vertex_lt_of_get? {s : Nat} {e : WindowEntry}
    (h : (before m codec p).state.window.get? s = some e) :
    e.vertex.toNat < m.vertices.size ∧ e.vertex.toNat < 2 ^ 20 + 63 := by
  obtain ⟨-, q, l, hl, hlt, hvertex, -⟩ := (get?_window_before p s e).mp h
  rw [hvertex]
  exact ⟨hlt, hl.vertexFor_lt⟩

/-- Every vertex that a face of a run uses comes out of a load, hence out of the store and
out of the reach of an address. -/
theorem vertices_before (p : Nat) : ∀ b ∈ (before m codec p).recording.batches.toList,
    ∀ v ∈ b.vertices, v.toNat < m.vertices.size ∧ v.toNat < 2 ^ 20 + 63 := by
  induction p with
  | zero => simp [start]
  | succ p ih =>
    cases hc : m.commands[p]? with
    | none => rwa [before_succ_of_none hc]
    | some c => exact (effect_before hc).vertices_forall (fun _ _ => vertex_lt_of_get?) ih

end Decoder

namespace Model

/-- A scene comes out of a run, and its meshes out of the batches of that run. -/
theorem decode_eq_ok {m : Model} {codec : Codec} {limit : Nat} {out : Decoded}
    (h : (m.decode codec limit).result = .ok out) :
    ∃ r, (Decoder.run m codec limit (.start m)).result = .ok r ∧ out.scene = r.scene m ∧
      out.requests = r.table.requests ∧
      out.diagnostics = r.diagnostics ++ r.recording.placementJournal.diagnostics := by
  rw [decode_result] at h
  cases hr : (Decoder.run m codec limit (.start m)).result with
  | error e =>
    rw [hr] at h
    cases h
  | ok r =>
    rw [hr] at h
    cases h
    exact ⟨r, rfl, rfl, rfl, rfl⟩

/-- The meshes of a scene stand for the batches with faces, one for each and in order. -/
theorem meshes_represent_batches (m : Model) (codec : Codec) (limit : Nat) (out : Decoded)
    (h : (m.decode codec limit).result = .ok out) :
    ∃ r, (Decoder.run m codec limit (.start m)).result = .ok r ∧
      List.Forall₂ (fun b mesh => Mesh.Represents m.vertices b mesh)
        (r.recording.batches.toList.filter fun b => !b.isEmpty) out.scene.meshes.toList := by
  obtain ⟨r, hr, hscene, -⟩ := decode_eq_ok h
  obtain ⟨rfl, -⟩ := Decoder.run_eq_ok hr
  refine ⟨_, hr, ?_⟩
  have hbatch : ∀ p ∈ ((Decoder.before m codec m.commands.size).finish m).recording.placed,
      ∀ v ∈ p.batch.vertices, v.toNat < m.vertices.size ∧ v.toNat < 2 ^ 20 + 63 := by
    intro p hp
    apply Decoder.vertices_before m.commands.size p.batch
    rw [← Decoder.finish_recording (m := m), ← Recording.batches_placed]
    exact List.mem_map_of_mem hp
  rw [hscene, ← Recording.batches_placed]
  exact Recording.forall₂_meshes (fun p hp v hv => (hbatch p hp v hv).1)
    fun p hp v hv => by have := (hbatch p hp v hv).2; omega

/-- Two batches, the second of which reaches back below the first and skips a vertex. -/
def sampleReach : Model where
  vertices := .replicate 6 {}
  commands := #[.ofFields 4 0 12 0 48, .ofFields 191 0 0 0 0x204, .ofFields 182 0 0 0 0,
    .ofFields 4 0 12 0 16, .ofFields 191 0 0 0 0x404]

theorem meshes_represent_batches_reach :
    ∃ out, (sampleReach.decode .packed 5).result = .ok out ∧
    out.scene.meshes.toList.map
      (fun mesh => (mesh.indexOffset, mesh.vertexCount, mesh.faces.size)) =
        [(0, 6, 1), (1, 3, 1)] ∧
    ∃ r, (Decoder.run sampleReach .packed 5 (.start sampleReach)).result = .ok r ∧
      List.Forall₂ (fun b mesh => Mesh.Represents sampleReach.vertices b mesh)
        (r.recording.batches.toList.filter fun b => !b.isEmpty) out.scene.meshes.toList :=
  have hshapes : (sampleReach.decode .packed 5).result.map (fun out =>
      out.scene.meshes.toList.map fun mesh =>
        (mesh.indexOffset, mesh.vertexCount, mesh.faces.size)) = .ok [(0, 6, 1), (1, 3, 1)] := by
    decide +kernel
  have ⟨out, hout, hmeshes⟩ := exists_of_map_eq_ok hshapes
  ⟨out, hout, hmeshes, meshes_represent_batches sampleReach .packed 5 out hout⟩

end Model

end DisplayList

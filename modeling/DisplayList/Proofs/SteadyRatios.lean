import DisplayList.Proofs.Appending
import DisplayList.Proofs.Coordinates

/-!
# Coordinates while no texture is bound

The ratios in force only change where a texture is bound: scales wait for the next binding, and
tiles, palettes and images leave ratios alone. So if no texture is bound between the load that
opens a batch and its last face, all its faces are scaled alike. A mesh keeps, for each vertex,
the coordinates of the first corner there; then these are those of every corner there.
-/
namespace DisplayList

namespace Mesh

variable {store : Array Vertex} {b : Batch} {mesh : Mesh}

/-- Every vertex that a face of the batch uses is one of the vertices of the mesh. -/
theorem Represents.exists_local (h : mesh.Represents store b) {v : UInt32} (hv : v ∈ b.vertices) :
    ∃ l < mesh.positions.size, mesh.indexOffset.toNat + l = v.toNat := by
  obtain ⟨n, hn⟩ := List.mem_iff_getElem?.mp hv
  have hlt := (List.getElem?_eq_some_iff.mp hn).1
  rw [Batch.length_vertices] at hlt
  have hj : n / 3 < mesh.faces.size := by
    rw [h.faces_size]
    omega
  have hc : n % 3 < mesh.faces[n / 3].toList.length := Nat.mod_lt n (by decide)
  obtain ⟨w, hw, hlocal, hsize⟩ := h.face (n / 3) _ (Array.getElem?_eq_getElem hj) (n % 3) _
    (List.getElem?_eq_getElem hc)
  rw [Nat.div_add_mod, hn, Option.some.injEq] at hw
  exact ⟨_, hsize, by rw [hw, ← hlocal, Nat.add_comm]⟩

end Mesh

namespace Decoder

open Texture TextureTable

variable {m : Model} {codec : Codec} {d d' : Decoder} {p q o k position : Nat} {c : Command}

/-- Only a command that binds a texture adds one. -/
theorem Effect.size_textures_eq (h : Effect m codec d position c d')
    (ho : c.opcode? ≠ some .bindTexture) : d'.table.textures.size = d.table.textures.size := by
  cases h with
  | idle => rfl
  | selectNull => rfl
  | bindTexture h => exact absurd h ho
  | setTile => exact size_modify _ _ _
  | loadPalette => rw [loadPalette_table, size_loadPalette]
  | setScale => rfl
  | loadVertices =>
    rw [loadVertices_table]
    cases d.state.boundary? with
    | none => rfl
    | some boundary =>
      cases boundary with
      | null => rfl
      | texture => exact size_materialFor _ _ _ _ _ _
  | stray => rfl
  | draw => rw [foldl_drawTriangle_table]

section NoBind

variable (codec) (hpq : p ≤ q) (hno : ∀ r, p ≤ r → r < q → m.bind? r = none)

include hpq hno

theorem size_textures_before_eq : (before m codec q).table.textures.size =
    (before m codec p).table.textures.size := by
  induction q, hpq using Nat.le_induction with
  | base => rfl
  | succ q hq ih =>
    rw [← ih fun r hr hrq => hno r hr (by omega)]
    cases hc : m.commands[q]? with
    | none => rw [before_succ_of_none hc]
    | some c =>
      have hbind := hno q hq (by omega)
      exact (effect_before hc).size_textures_eq fun ho => by simp [Model.bind?, hc, ho] at hbind

/-- While no texture is bound the ratios in force stay, also those of a texture that is not
there. -/
theorem boundRatio_before_eq :
    (before m codec q).boundRatio = (before m codec p).boundRatio := by
  rw [boundRatio, boundRatio, texture_before_eq codec hpq hno]
  rcases Nat.lt_or_ge (before m codec p).state.texture (before m codec p).table.textures.size with
    hlt | hge
  · exact ratio_before_eq codec hpq hno hlt
  · have hsize := size_textures_before_eq codec hpq hno
    rw [TextureTable.ratio, TextureTable.ratio, Array.getElem?_eq_none hge,
      Array.getElem?_eq_none (by omega)]

end NoBind

/-- From the load at `o` to the last face of the `k`-th batch no texture is bound. -/
def Steady (m : Model) (codec : Codec) (k o : Nat) : Prop :=
  ∀ p j f, Draws m codec p k j f → m.NoBindBetween o p

/-- The faces of a batch between whose opening and last face no texture is bound are all scaled by
the ratios in force at the opening. -/
theorem Steady.scaled {n : Nat} {b : Batch} (hsteady : Steady m codec k o)
    (hopens : Opens m codec o) (hk : (before m codec o).recording.batches.size = k)
    (hb : (before m codec n).recording.batches.toList[k]? = some b) {j : Nat} {f : Triangle Corner}
    (hf : b.triangles[j]? = some f) :
    Recording.Scaled m (before m codec o).boundRatio (before m codec n).recording f := by
  have hface : (before m codec n).recording.face? k j = some f := by
    rw [Recording.face?, hb, Option.bind_some, hf]
  obtain ⟨p, hp, hdraws⟩ := exists_draws m codec n hface
  have hearlier := (hdraws.openedAt hopens hk).earlier
  have hnone := hopens.bind?_eq_none (hsteady p j f hdraws)
  rw [← boundRatio_before_eq codec (Nat.le_of_lt hearlier) hnone]
  exact hdraws.scaled.mono (grows_before m codec hp)

/-- What a scene keeps of the coordinates of the `k`-th batch, if all its faces are scaled by one
ratio: the mesh has at each vertex what every corner there has in the pool. -/
structure Faithful (m : Model) (s : Scene) (r : Recording) (k : Nat) (b : Batch)
    (ratio : TexCoord) (mesh : Mesh) : Prop where
  place : s.meshes[Recording.meshPlace r.batches.toList k]? = some mesh
  represents : mesh.Represents m.vertices b
  corner : ∀ corner ∈ b.corners, ∃ v l, m.vertices[corner.vertex.toNat]? = some v ∧
    r.pool[corner.uv]? = some (v.uv.scaleBy ratio) ∧
    mesh.indexOffset.toNat + l = corner.vertex.toNat ∧
    mesh.uvs[l]? = some (v.uv.scaleBy ratio)
  unvisited : ∀ l < mesh.uvs.size, (∀ v ∈ b.vertices, v.toNat ≠ mesh.indexOffset.toNat + l) →
    mesh.uvs[l]? = some .zero

/-- One ratio for all faces of a batch makes its mesh faithful. -/
theorem exists_faithful {n : Nat} {b : Batch} {ratio : TexCoord}
    (hb : (before m codec n).recording.batches.toList[k]? = some b) (hne : b.isEmpty = false)
    (hscaled : ∀ (j : Nat) f, b.triangles[j]? = some f →
      Recording.Scaled m ratio (before m codec n).recording f) :
    ∃ mesh, Faithful m ((before m codec n).scene m) (before m codec n).recording k b ratio
      mesh := by
  obtain ⟨lowest, hlow⟩ := Batch.exists_lowest hne
  have hvertices := vertices_before n b (List.mem_of_getElem? hb)
  have hrepresents := Mesh.represents_ofBatch (before m codec n).recording.pool
    (Batch.dueAfter ((before m codec n).recording.batches.toList.take k)) hne
    (fun v hv => (hvertices v hv).1) fun v hv => by have := (hvertices v hv).2; omega
  refine ⟨_, ?_, hrepresents, fun corner hcorner => ?_, fun l hl hnone => ?_⟩
  · rw [← Array.getElem?_toList, scene, Recording.meshes, Recording.placed_eq]
    exact Recording.getElem?_meshes hb hne
  · obtain ⟨j, f, hj, hf⟩ := mem_triangles_of_mem_corners hcorner
    obtain ⟨v, hv, hpool⟩ := hscaled j f hj corner hf
    obtain ⟨l, hl, hlocal⟩ := hrepresents.exists_local (List.mem_map_of_mem hcorner)
    refine ⟨v, l, hv, hpool, hlocal, ?_⟩
    rcases Mesh.uvs_ofBatch hlow rfl (hrepresents.uvs_size ▸ hl) with
      ⟨-, hnone⟩ | ⟨first, hfirst, hat, huv⟩
    · exact absurd hlocal.symm (hnone corner hcorner)
    · -- the first corner there need not be this one, but it is a corner of the same vertex
      obtain ⟨j, f, hj, hf⟩ := mem_triangles_of_mem_corners hfirst
      obtain ⟨w, hw, hpool⟩ := hscaled j f hj first hf
      rw [hat, hlocal, hv, Option.some.injEq] at hw
      rw [huv, hpool, hw, Option.getD_some]
  · rcases Mesh.uvs_ofBatch hlow rfl hl with ⟨hzero, -⟩ | ⟨corner, hcorner, hat, -⟩
    · exact hzero
    · exact absurd hat (hnone _ (List.mem_map_of_mem hcorner))

end Decoder

namespace Model

open Decoder

/-- Whenever a model is decoded, a batch with faces between whose opening and last face no texture
is bound gives each corner the coordinates of its vertex, scaled by the ratios in force at the
opening, in the pool and in the mesh alike. -/
theorem coordinates_faithful (m : Model) (codec : Codec) (limit : Nat) (out : Decoded)
    (h : (m.decode codec limit).result = .ok out) :
    ∃ r, (run m codec limit (start m)).result = .ok r ∧
      ∀ k b, r.recording.batches.toList[k]? = some b → b.isEmpty = false →
        ∃ o, Opens m codec o ∧ (before m codec o).recording.batches.size = k ∧
          (Steady m codec k o → ∃ mesh,
            Faithful m out.scene r.recording k b (before m codec o).boundRatio mesh) := by
  obtain ⟨r, hr, hscene, -⟩ := decode_eq_ok h
  obtain ⟨rfl, -⟩ := run_eq_ok hr
  refine ⟨_, hr, fun k b hb hne => ?_⟩
  rw [finish_recording] at hb
  have hk : k < (before m codec m.commands.size).recording.batches.size := by
    simpa using (List.getElem?_eq_some_iff.mp hb).1
  obtain ⟨o, -, hopens, hsize⟩ := exists_opens_of_lt m codec hk
  refine ⟨o, hopens, hsize, fun hsteady => ?_⟩
  rw [hscene]
  exact exists_faithful hb hne fun j f hf => hsteady.scaled hopens hsize hb hf

/-- A batch whose two faces share vertices, and between its opening and its last face scales,
a tile that names another format, a palette, a change of material and a load that opens nothing. -/
def sampleSteady : Model where
  vertices := .replicate 4 { uv := ⟨32, 64⟩ }
  textures := #[{ dataOffset := 0, format := .rgba16, width := 2, height := 1 }]
  textureData := .replicate 8 0
  commands := #[.ofFields 187 0 0 0 0x80004000, .ofFields 253 0 0 0 0, .ofFields 4 0 12 0 0,
    .ofFields 191 0 0 0 0x204, .ofFields 187 0 0 0 0x10001000, .ofFields 245 0x90 0 0 0,
    .ofFields 240 0 0 0 0, .ofFields 4 6 4 0 48, .ofFields 182 0 0 0 0, .ofFields 191 0 0 0 0x206]

/-- It binds a texture only before its first load. -/
theorem steady_sampleSteady {k o : Nat} (h : Opens sampleSteady .packed o) :
    Steady sampleSteady .packed k o := by
  intro p j f _ r hr _
  have hbind : ∀ r < 10, 1 < r → sampleSteady.bind? r = none := by decide
  have ho : 1 ≤ o := by
    obtain ⟨c, hc, hload, -⟩ := h.load
    rcases Nat.eq_zero_or_pos o with rfl | hpos
    · cases hc
      cases hload
    · exact hpos
  rcases Nat.lt_or_ge r 10 with hlt | hge
  · exact hbind r hlt (by omega)
  · simp [bind?, Array.getElem?_eq_none (show sampleSteady.commands.size ≤ r from hge)]

theorem coordinates_faithful_steady :
    ∃ out, (sampleSteady.decode .packed 10).result = .ok out ∧
    ∃ r, (run sampleSteady .packed 10 (start sampleSteady)).result = .ok r ∧
    ∃ b, r.recording.batches.toList[0]? = some b ∧ b.triangles.size = 2 ∧
    ∃ o mesh, Opens sampleSteady .packed o ∧
      Faithful sampleSteady out.scene r.recording 0 b
        (before sampleSteady .packed o).boundRatio mesh := by
  obtain ⟨r, hr, h⟩ := coordinates_faithful sampleSteady .packed 10 _ rfl
  obtain ⟨rfl, -⟩ := run_eq_ok hr
  obtain ⟨o, hopens, -, hfaithful⟩ := h 0 _ rfl rfl
  obtain ⟨mesh, hmesh⟩ := hfaithful (steady_sampleSteady hopens)
  exact ⟨_, rfl, _, hr, _, rfl, rfl, o, mesh, hopens, hmesh⟩

end Model

end DisplayList

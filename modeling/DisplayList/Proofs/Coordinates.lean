import DisplayList.Proofs.Faces
import DisplayList.Proofs.Placement
import DisplayList.Proofs.Textures

/-!
# Whose texture the coordinates are scaled for

The material of a batch is settled by the load that opens it, while a face is scaled for the
texture that is bound when it is drawn. The two are the same as long as no texture is bound
in between; then all coordinates of the mesh are scaled by the dimensions of its own texture.
-/
namespace DisplayList

namespace Texture

theorem persists_ratio : Persists fun t u => u.ratio = t.ratio where
  refl _ := rfl
  trans h h' := h'.trans h
  applyTile _ _ := rfl
  palette _ _ := rfl
  image _ _ _ := rfl

end Texture

namespace TextureTable

theorem ratio_eq {table : TextureTable} {t : Nat} {u : Texture}
    (h : table.textures[t]? = some u) : table.ratio t = u.ratio := by
  simp [ratio, h]

theorem exists_select (table : TextureTable) (position : Nat) (c : Command) :
    ∃ u, (table.select position c).1.textures[(table.select position c).2.1]? = some u := by
  rw [select_eq]
  cases h : table.find? c.address with
  | none => exact ⟨_, Array.getElem?_push_size⟩
  | some i =>
    rw [find?_eq] at h
    obtain ⟨hi, -⟩ := Array.findIdx?_eq_some_iff_getElem.mp h
    exact ⟨_, Array.getElem?_eq_getElem hi⟩

/-- The texture that is bound has the ratios of its dimensions and of the scales in force. -/
theorem exists_bind (table : TextureTable) (position : Nat) (c : Command) (tile : Option Tile)
    (sScale tScale : Float32) : ∃ u,
      (table.bind position c tile sScale tScale).1.textures[(table.select position c).2.1]? =
        some u ∧
      u.ratio = ⟨Texture.axisRatio sScale u.width, Texture.axisRatio tScale u.height⟩ := by
  obtain ⟨u, hu⟩ := table.exists_select position c
  refine ⟨(tile.elim u u.applyTile).rescale sScale tScale, ?_, rfl⟩
  simp [TextureTable.bind_eq, modify, Array.getElem?_modify, hu]

end TextureTable

/-- A vertex of a mesh has the coordinates of the first corner of the batch there, and zero if
there is none. -/
theorem Mesh.uvs_ofBatch {store : Array Vertex} {pool : Array TexCoord} {b : Batch}
    {lowest offset start : UInt32} {l : Nat} (hlow : b.lowest? = some lowest)
    (hstart : (ofBatch store pool offset b).indexOffset = start)
    (hl : l < (ofBatch store pool offset b).uvs.size) :
    ((ofBatch store pool offset b).uvs[l]? = some .zero ∧
      ∀ corner ∈ b.corners, corner.vertex.toNat ≠ start.toNat + l) ∨
    ∃ corner ∈ b.corners, corner.vertex.toNat = start.toNat + l ∧
      (ofBatch store pool offset b).uvs[l]? = some (pool[corner.uv]?.getD .zero) := by
  obtain ⟨highest, hhigh⟩ := Batch.exists_highest_of_lowest? hlow
  rw [ofBatch_eq_cut hlow hhigh] at hstart hl ⊢
  have hmin : min offset lowest = start := hstart
  have hbound : ∀ v ∈ b.vertices, start ≤ v := fun v hv =>
    hmin ▸ Std.le_trans Std.min_le_right ((Batch.lowest?_eq_some_iff.mp hlow).2 v hv)
  rw [hmin] at hl ⊢
  rw [uvs_cut pool hbound (by simpa [cut] using hl)]
  cases hfind : b.corners.find? fun c => c.vertex.toNat = start.toNat + l with
  | none =>
    exact .inl ⟨rfl, fun corner hcorner => by
      simpa using List.find?_eq_none.mp hfind corner hcorner⟩
  | some corner =>
    exact .inr ⟨corner, List.mem_of_find?_eq_some hfind, by simpa using List.find?_some hfind, rfl⟩

/-- Between two positions no texture is bound. -/
def Model.NoBindBetween (m : Model) (o p : Nat) : Prop :=
  ∀ r, o < r → r < p → m.bind? r = none

namespace Decoder

open Texture TextureTable

variable {m : Model} {codec : Codec} {p q o t k : Nat} {c : Command} {b : Batch}

section NoBind

variable (codec) (hpq : p ≤ q) (hno : ∀ r, p ≤ r → r < q → m.bind? r = none)

include hpq hno

theorem texture_before_eq :
    (before m codec q).state.texture = (before m codec p).state.texture := by
  induction q, hpq using Nat.le_induction with
  | base => rfl
  | succ q hq ih =>
    rw [← ih fun r hr hrq => hno r hr (by omega)]
    cases hc : m.commands[q]? with
    | none => rw [before_succ_of_none hc]
    | some c =>
      have hbind := hno q hq (by omega)
      rw [(effect_before hc).texture_eq, if_neg fun ho => by simp [Model.bind?, hc, ho] at hbind]

/-- Without a texture being bound no ratios are set. -/
theorem ratio_before_eq (ht : t < (before m codec p).table.textures.size) :
    (before m codec q).table.ratio t = (before m codec p).table.ratio t := by
  have hrevised := revised_before m codec persists_ratio hpq
    fun r hr hrq hbind => absurd hbind (by simp [hno r hr hrq])
  have hthen := Array.getElem?_eq_getElem ht
  obtain ⟨u, hu, hratio⟩ := hrevised t _ hthen
  rw [ratio_eq hu, ratio_eq hthen, hratio]

end NoBind

/-- A command that binds a texture sets its ratios. -/
theorem exists_texture_of_bind (codec : Codec) (hq : m.bind? q = some c) : ∃ u,
    (before m codec (q + 1)).table.textures[(before m codec (q + 1)).state.texture]? = some u ∧
    u.ratio = ⟨axisRatio (before m codec q).state.sScale u.width,
      axisRatio (before m codec q).state.tScale u.height⟩ := by
  obtain ⟨hc, ho⟩ := Model.bind?_eq_some_iff.mp hq
  have hstep : before m codec (q + 1) = (before m codec q).bindTexture m q c := by
    rw [before_succ hc]
    simp only [step_eq, ho]
  have hscales (tile : Option Tile) (s : DrawState) :
      (tile.elim s s.applyTile).sScale = s.sScale ∧
        (tile.elim s s.applyTile).tScale = s.tScale := by
    cases tile <;> exact ⟨rfl, rfl⟩
  obtain ⟨hs, ht⟩ := hscales (upcomingTile? m q) (before m codec q).state
  obtain ⟨u, hu, hratio⟩ := (before m codec q).table.exists_bind q c (upcomingTile? m q)
    (before m codec q).state.sScale (before m codec q).state.tScale
  refine ⟨u, ?_, hratio⟩
  rw [hstep, Decoder.bindTexture_eq, bindWith_table, bindWith_state, hs, ht]
  exact hu

/-- The ratios of the texture bound last are those of its dimensions and of the scales in force
when it was bound. -/
theorem ratio_of_lastBind (h : m.LastBind p q c) {u : Texture}
    (hu : (before m codec p).table.textures[(before m codec p).state.texture]? = some u) :
    u.ratio = ⟨axisRatio (before m codec q).state.sScale u.width,
      axisRatio (before m codec q).state.tScale u.height⟩ := by
  obtain ⟨v, hv, hratio⟩ := exists_texture_of_bind codec h.bind
  have hno : ∀ r, q + 1 ≤ r → r < p → m.bind? r = none := fun r hr hrp => h.last r hr hrp
  have htexture := texture_before_eq codec h.earlier hno
  rw [htexture] at hu
  have hlt := (Array.getElem?_eq_some_iff.mp hv).1
  have hsame := ratio_before_eq codec h.earlier hno hlt
  rw [ratio_eq hu, ratio_eq hv, hratio] at hsame
  obtain ⟨u', hu', hbecame⟩ := revised_before m codec persists_became h.earlier
    (fun _ _ _ _ => scales_became) _ v hv
  obtain rfl : u = u' := Option.some.inj (hu.symm.trans hu')
  rw [hsame, hbecame.width_eq, hbecame.height_eq]

/-- A batch in the material of a texture was opened by a load that took that texture. -/
theorem takes_of_material {n : Nat} (ho : Opens m codec o) (hon : o < n)
    (hb : (before m codec n).recording.batches.toList[
      (before m codec o).recording.batches.size]? = some b)
    (ht : ((before m codec n).table.materials[b.material]?).bind Material.texture = some t) :
    Takes m codec o t := by
  obtain ⟨uses, huses⟩ := exists_catalogued m codec n
  have htag : (before m codec n).recording.tags[
      (before m codec o).recording.batches.size]? = some b.material := by
    simp [Recording.tags, hb]
  by_cases htakes : ∃ t', Takes m codec o t'
  · obtain ⟨t', ht'⟩ := htakes
    obtain ⟨i, u, hi, hu, htag'⟩ := huses.tagged o t' hon ht'
    have hmaterial : b.material = i + 1 := Option.some.inj (htag.symm.trans htag')
    have htexture := (huses.texture_eq_iff hi).mpr hmaterial
    obtain rfl : t = t' := by
      rw [← hu]
      exact Option.some.inj (ht.symm.trans htexture)
    exact ht'
  · have hnull := tag_of_not_takes hon ho fun t' ht' => htakes ⟨t', ht'⟩
    have hmaterial : b.material = Material.nullIndex := Option.some.inj (htag.symm.trans hnull)
    rw [hmaterial, ← Array.getElem?_toList, huses.materials_eq] at ht
    cases ht

/-- What the coordinates of a batch that was opened at `o` owe to the commands that drew its faces:
each face is scaled by the ratios of the texture that was bound when it was drawn. -/
structure ScaledWhenDrawn (m : Model) (codec : Codec) (r : Decoder) (k : Nat) (b : Batch)
    (o : Nat) : Prop where
  opens : Opens m codec o
  size_eq : (before m codec o).recording.batches.size = k
  drawn : ∀ j f, b.triangles[j]? = some f → ∃ p, OpenedAt m codec p o ∧ Draws m codec p k j f ∧
    Recording.Scaled m (before m codec p).boundRatio r.recording f

/-- What they owe to the texture `t` of its material, as long as no other is bound before its faces
are drawn: it is the one that was bound when the batch was opened, and its ratios are those of
its dimensions and of the scales in force when it was bound. -/
structure ScaledForOwn (m : Model) (codec : Codec) (r : Decoder) (k : Nat) (b : Batch) (o t : Nat) :
    Prop where
  bound : (before m codec o).state.texture = t
  steady : ∀ p, OpenedAt m codec p o → m.NoBindBetween o p →
    (before m codec p).boundRatio = (before m codec o).table.ratio t
  normalised : ∀ q c u, m.LastBind o q c → r.table.textures[t]? = some u →
    (before m codec o).table.ratio t = ⟨axisRatio (before m codec q).state.sScale u.width,
      axisRatio (before m codec q).state.tScale u.height⟩
  /-- Then every vertex of the mesh has the coordinates of its vertex in the store, scaled for the
  texture of the mesh, or zero if no face visits it. -/
  mesh : b.isEmpty = false →
    (∀ p c, OpenedAt m codec p o → m.commands[p]? = some c → c.faces ≠ [] →
      m.NoBindBetween o p) →
    ∃ mesh, (r.scene m).meshes[Recording.meshPlace r.recording.batches.toList k]? = some mesh ∧
      mesh.material = b.material ∧ ∀ l < mesh.uvs.size,
        (mesh.uvs[l]? = some .zero ∧
          ∀ v ∈ b.vertices, v.toNat ≠ mesh.indexOffset.toNat + l) ∨
        ∃ v, m.vertices[mesh.indexOffset.toNat + l]? = some v ∧
          mesh.uvs[l]? = some (v.uv.scaleBy ((before m codec o).table.ratio t))

/-- A load binds nothing, so that what is bound when it is carried out stays bound. -/
theorem Opens.bind?_eq_none (h : Opens m codec o) (hno : m.NoBindBetween o p) (r : Nat)
    (hr : o ≤ r) (hrp : r < p) : m.bind? r = none := by
  rcases Nat.eq_or_lt_of_le hr with rfl | hlt
  · obtain ⟨c, hc, ho, -⟩ := h.load
    simp [Model.bind?, hc, ho]
  · exact hno r hlt hrp

theorem boundRatio_of_noBind (ht : Takes m codec o t) (h : OpenedAt m codec p o)
    (hno : m.NoBindBetween o p) :
    (before m codec p).boundRatio = (before m codec o).table.ratio t := by
  have hle := Nat.le_of_lt h.earlier
  have hnone := h.opens.bind?_eq_none hno
  rw [boundRatio, texture_before_eq codec hle hnone, ht.bound,
    ratio_before_eq codec hle hnone ht.present]

theorem mem_triangles_of_mem_corners {corner : Corner} (h : corner ∈ b.corners) :
    ∃ (j : Nat) (f : Triangle Corner), b.triangles[j]? = some f ∧ corner ∈ f.toList := by
  obtain ⟨f, hf, hcorner⟩ := List.mem_flatMap.mp h
  obtain ⟨j, hj⟩ := List.mem_iff_getElem?.mp hf
  exact ⟨j, f, by rwa [Array.getElem?_toList] at hj, hcorner⟩

/-- The mesh of a batch whose corners are all scaled by one ratio. -/
theorem exists_mesh {r : Decoder} {ratio : TexCoord}
    (hb : r.recording.batches.toList[k]? = some b) (hne : b.isEmpty = false)
    (hscaled : ∀ (j : Nat) f, b.triangles[j]? = some f → Recording.Scaled m ratio r.recording f) :
    ∃ mesh, (r.scene m).meshes[Recording.meshPlace r.recording.batches.toList k]? = some mesh ∧
      mesh.material = b.material ∧ ∀ l < mesh.uvs.size,
        (mesh.uvs[l]? = some .zero ∧
          ∀ v ∈ b.vertices, v.toNat ≠ mesh.indexOffset.toNat + l) ∨
        ∃ v, m.vertices[mesh.indexOffset.toNat + l]? = some v ∧
          mesh.uvs[l]? = some (v.uv.scaleBy ratio) := by
  obtain ⟨lowest, hlow⟩ := Batch.exists_lowest hne
  obtain ⟨highest, hhigh⟩ := Batch.exists_highest hne
  refine ⟨.ofBatch m.vertices r.recording.pool
    (Batch.dueAfter (r.recording.batches.toList.take k)) b, ?_, ?_, fun l hl => ?_⟩
  · rw [← Array.getElem?_toList, scene, Recording.meshes, Recording.placed_eq]
    exact Recording.getElem?_meshes hb hne
  · rw [Mesh.ofBatch_eq_cut hlow hhigh]
    rfl
  · rcases Mesh.uvs_ofBatch hlow rfl hl with ⟨hzero, hnone⟩ | ⟨corner, hcorner, hat, huv⟩
    · refine .inl ⟨hzero, fun v hv => ?_⟩
      obtain ⟨corner, hcorner, rfl⟩ := List.mem_map.mp hv
      exact hnone corner hcorner
    · obtain ⟨j, f, hj, hf⟩ := mem_triangles_of_mem_corners hcorner
      obtain ⟨v, hv, hpool⟩ := hscaled j f hj corner hf
      refine .inr ⟨v, hat ▸ hv, ?_⟩
      rw [huv, hpool, Option.getD_some]

/-- Coordinates follow the texture that is bound when a face is drawn. That is the texture of the
material of the batch, as it was when the batch was opened, for all faces that are drawn before
another texture is bound. -/
theorem coordinates_follow_bound_texture (m : Model) (codec : Codec) (limit : Nat) (r : Decoder)
    (hrun : (run m codec limit (start m)).result = .ok r) (k : Nat) (b : Batch)
    (hb : r.recording.batches.toList[k]? = some b) :
    ∃ o, ScaledWhenDrawn m codec r k b o ∧
      ∀ t, (r.table.materials[b.material]?).bind Material.texture = some t →
        ScaledForOwn m codec r k b o t := by
  obtain ⟨rfl, -⟩ := run_eq_ok hrun
  have hbatch := hb
  rw [finish_recording] at hbatch
  have hk : k < (before m codec m.commands.size).recording.batches.size := by
    simpa using (List.getElem?_eq_some_iff.mp hb).1
  obtain ⟨o, ho, hopens, rfl⟩ := exists_opens_of_lt m codec hk
  have hdrawn : ∀ j f, b.triangles[j]? = some f → ∃ p, OpenedAt m codec p o ∧
      Draws m codec p (before m codec o).recording.batches.size j f ∧
      Recording.Scaled m (before m codec p).boundRatio
        (before m codec m.commands.size).recording f := by
    intro j f hj
    have hface : (before m codec m.commands.size).recording.face?
        (before m codec o).recording.batches.size j = some f := by
      rw [Recording.face?, hbatch, Option.bind_some, hj]
    obtain ⟨p, hp, hdraws⟩ := exists_draws m codec m.commands.size hface
    exact ⟨p, hdraws.openedAt hopens rfl, hdraws,
      hdraws.scaled.mono (grows_before m codec hp)⟩
  refine ⟨o, ⟨hopens, rfl, hdrawn⟩, fun t ht => ?_⟩
  have htakes := takes_of_material hopens ho hbatch ht
  refine ⟨htakes.bound, fun p hp hno => boundRatio_of_noBind htakes hp hno,
    fun q c u hq hu => ?_, fun hne hsteady => ?_⟩
  · obtain ⟨u', hu'⟩ := htakes.exists_texture
    rw [ratio_eq hu', ratio_of_lastBind hq (htakes.bound.symm ▸ hu')]
    obtain ⟨u'', hu'', hbecame⟩ := revised_before m codec persists_became (Nat.le_of_lt ho)
      (fun _ _ _ _ => scales_became) t u' hu'
    obtain rfl : u = u'' := Option.some.inj (hu.symm.trans hu'')
    rw [hbecame.width_eq, hbecame.height_eq]
  · refine exists_mesh hb hne fun j f hj => ?_
    obtain ⟨p, hp, hdraws, hscaled⟩ := hdrawn j f hj
    obtain ⟨c, hc, hfaces⟩ := hdraws.command
    rwa [boundRatio_of_noBind htakes hp (hsteady p c hp hc hfaces)] at hscaled

/-- A batch in the material of one texture whose face is drawn when another one, with other
dimensions, has been bound. -/
def sampleLateBind : Model where
  vertices := .replicate 3 { uv := ⟨32, 32⟩ }
  textures := #[{ dataOffset := 0, format := .rgba16, width := 1, height := 1 },
    { dataOffset := 2, format := .rgba16, width := 2, height := 2 }]
  textureData := .replicate 10 0
  commands := #[.ofFields 253 0 0 0 0, .ofFields 4 0 12 0 0, .ofFields 253 0 0 0 2,
    .ofFields 191 0 0 0 0x204]

theorem coordinates_follow_bound_texture_late :
    ∃ r, (run sampleLateBind .packed 4 (start sampleLateBind)).result = .ok r ∧
    ∃ b, r.recording.batches.toList[0]? = some b ∧
    ∃ o, ScaledWhenDrawn sampleLateBind .packed r 0 b o ∧
      ∀ t, (r.table.materials[b.material]?).bind Material.texture = some t →
        ScaledForOwn sampleLateBind .packed r 0 b o t :=
  ⟨_, rfl, _, rfl,
    coordinates_follow_bound_texture sampleLateBind .packed 4 _ rfl 0 _ rfl⟩

/-- The coordinates need not be scaled for the texture of the material. -/
theorem not_scaled_for_own_late :
    ∃ r, (run sampleLateBind .packed 4 (start sampleLateBind)).result = .ok r ∧
    ∃ b, r.recording.batches.toList[0]? = some b ∧
      (r.table.materials[b.material]?).bind Material.texture = some 0 ∧
      Opens sampleLateBind .packed 1 ∧
    ∃ corner ∈ b.corners, ∃ v, sampleLateBind.vertices[corner.vertex.toNat]? = some v ∧
      r.recording.pool[corner.uv]? ≠
        some (v.uv.scaleBy ((before sampleLateBind .packed 1).table.ratio 0)) :=
  ⟨_, rfl, _, rfl, by decide +kernel, by unfold Opens; decide +kernel, ⟨0, 0⟩, by decide +kernel,
    _, rfl, by decide +kernel⟩

end Decoder

end DisplayList

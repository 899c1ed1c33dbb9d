import DisplayList.Proofs.Textures

/-!
# Commands only append

A command that fails has done nothing. One that succeeds adds to the ends of lists: faces to
the open batch or one batch after it, coordinates to the pool, a material, a texture, entries
to the journal. What it does to older things is little, so a batch is never touched again once
another one has been opened after it.
-/
namespace DisplayList

namespace Batch

/-- A batch with some faces more, or with none. -/
structure Continues (b b' : Batch) : Prop where
  material_eq : b'.material = b.material
  epoch_eq : b'.epoch = b.epoch
  triangles : b.triangles.toList <+: b'.triangles.toList

namespace Continues

variable {a b c : Batch}

protected theorem refl (b : Batch) : b.Continues b :=
  ⟨rfl, rfl, List.prefix_rfl⟩

protected theorem trans (h : a.Continues b) (h' : b.Continues c) : a.Continues c :=
  ⟨h'.material_eq.trans h.material_eq, h'.epoch_eq.trans h.epoch_eq,
    h.triangles.trans h'.triangles⟩

/-- The corners of the new faces come after all others. -/
theorem corners (h : b.Continues c) : b.corners <+: c.corners := by
  obtain ⟨added, hadded⟩ := h.triangles
  exact ⟨added.flatMap Triangle.toList, by simp [Batch.corners, ← hadded]⟩

end Continues

theorem continues_addFace (b : Batch) (face : Triangle Corner) : b.Continues (b.addFace face) :=
  ⟨rfl, rfl, [face], by simp [addFace]⟩

end Batch

namespace Recording

/-- What one command makes of the list of batches: nothing else, a last batch with more
faces, or one batch more, which has no faces yet. -/
inductive Advances : List Batch → List Batch → Prop
  | same (batches : List Batch) : Advances batches batches
  | drawn (older : List Batch) {b b' : Batch} (h : b.Continues b') :
      Advances (older ++ [b]) (older ++ [b'])
  | opened (batches : List Batch) (b : Batch) (h : b.triangles = #[]) :
      Advances batches (batches ++ [b])

/-- Faces and coordinates go behind those that are there. -/
structure Fed (older : List Batch) (b : Batch) (pool : List TexCoord) (r : Recording) : Prop where
  batches : ∃ b', r.batches.toList = older ++ [b'] ∧ b.Continues b'
  pool : pool <+: r.pool.toList

theorem Fed.addTriangle {older : List Batch} {b : Batch} {pool : List TexCoord} {r : Recording}
    (h : Fed older b pool r) (vertices : Triangle UInt32) (uvs : Triangle TexCoord) :
    Fed older b pool (r.addTriangle vertices uvs) := by
  obtain ⟨b', hb', hcontinues⟩ := h.batches
  refine ⟨⟨_, toList_addTriangle hb' vertices uvs, hcontinues.trans (b'.continues_addFace _)⟩, ?_⟩
  rw [pool_addTriangle hb']
  exact h.pool.trans (List.prefix_append _ _)

namespace Advances

variable {bs bs' : List Batch} {k : Nat} {b : Batch}

/-- Every batch is still in its place, with its material and epoch and all its faces. -/
theorem continues (h : Advances bs bs') (hb : bs[k]? = some b) :
    ∃ b', bs'[k]? = some b' ∧ b.Continues b' := by
  cases h with
  | same => exact ⟨b, hb, .refl b⟩
  | drawn older h =>
    rcases Decoder.getElem?_concat_cases hb with hold | ⟨rfl, rfl⟩
    · have hlt := (List.getElem?_eq_some_iff.mp hold).1
      exact ⟨b, by rw [List.getElem?_append_left hlt, hold], .refl b⟩
    · exact ⟨_, by simp, h⟩
  | opened batches added =>
    have hlt := (List.getElem?_eq_some_iff.mp hb).1
    exact ⟨b, by rw [List.getElem?_append_left hlt, hb], .refl b⟩

/-- Only the last batch can change. -/
theorem getElem?_eq (h : Advances bs bs') (hk : k + 1 < bs.length) : bs'[k]? = bs[k]? := by
  cases h with
  | same => rfl
  | drawn older h =>
    have hlt : k < older.length := by simpa using hk
    rw [List.getElem?_append_left hlt, List.getElem?_append_left hlt]
  | opened batches added => rw [List.getElem?_append_left (by omega)]

theorem length_le (h : Advances bs bs') : bs.length ≤ bs'.length := by
  cases h <;> simp

end Advances

end Recording

/-- A texture has what identifies it, and the image it had. -/
structure Texture.Retains (t u : Texture) : Prop where
  dataOffset_eq : u.dataOffset = t.dataOffset
  width_eq : u.width = t.width
  height_eq : u.height = t.height
  pixels : ∀ image, t.pixels = some image → u.pixels = some image

namespace Texture

theorem persists_retains : Persists Retains where
  refl t := ⟨rfl, rfl, rfl, fun _ h => h⟩
  trans h h' := ⟨h'.dataOffset_eq.trans h.dataOffset_eq, h'.width_eq.trans h.width_eq,
    h'.height_eq.trans h.height_eq, fun image ht => h'.pixels image (h.pixels image ht)⟩
  applyTile t tile := ⟨rfl, rfl, rfl, fun _ h => h⟩
  palette t bytes := ⟨rfl, rfl, rfl, fun _ h => h⟩
  image t image hnone := ⟨rfl, rfl, rfl, fun other hsome => by simp [hnone] at hsome⟩

theorem scales_retains : Scales Retains :=
  fun _ _ _ => ⟨rfl, rfl, rfl, fun _ h => h⟩

end Texture

namespace TextureTable

variable (table : TextureTable) (data : Bytes) (position index size : Nat) (c : Command)

/-- A table has as many textures as another one, or one more. -/
def GrowsByOne (before after : TextureTable) : Prop :=
  before.textures.size ≤ after.textures.size ∧ after.textures.size ≤ before.textures.size + 1

theorem growsByOne_of_size_eq {a b : TextureTable} (h : b.textures.size = a.textures.size) :
    GrowsByOne a b :=
  ⟨Nat.le_of_eq h.symm, Nat.le_add_right_of_le (Nat.le_of_eq h)⟩

@[simp] theorem size_modify (f : Texture → Texture) :
    (table.modify index f).textures.size = table.textures.size := by
  simp [modify]

theorem growsByOne_bind (tile : Option Tile) (sScale tScale : Float32) :
    GrowsByOne table (table.bind position c tile sScale tScale).1 := by
  have hselect : GrowsByOne table (table.select position c).1 := by
    rw [select_eq]
    cases table.find? c.address with
    | some index => exact growsByOne_of_size_eq rfl
    | none => simp [GrowsByOne, grow]
  simpa [GrowsByOne, bind_eq] using hselect

theorem size_loadPalette :
    (table.loadPalette data position index size).1.textures.size = table.textures.size := by
  rw [loadPalette_eq]
  split
  · exact size_modify _ _ _
  · rfl

theorem size_paint (codec : Codec) (t : Texture) :
    (table.paint codec data index t).1.textures.size = table.textures.size := by
  unfold paint
  split
  · rfl
  · dsimp only
    split
    · exact size_modify _ _ _
    · rfl

section MaterialFor

variable (codec : Codec) (wrapS wrapT : WrapMode)

theorem size_materialFor :
    (table.materialFor codec data index wrapS wrapT).1.textures.size = table.textures.size := by
  unfold materialFor addMaterial
  split
  · rfl
  · rfl
  · exact size_paint _ _ _ _ _

/-- A material is made after all others. -/
theorem materials_materialFor : table.materials.toList <+:
    (table.materialFor codec data index wrapS wrapT).1.materials.toList := by
  unfold materialFor addMaterial
  split
  · exact List.prefix_rfl
  · exact List.prefix_rfl
  · rename_i t _ _
    exact ⟨[.forTexture index wrapS wrapT], by simp [paint_materials]⟩

end MaterialFor

end TextureTable

namespace Decoder

open Recording TextureTable

variable {m : Model} {codec : Codec} {d d' e : Decoder} {p q position : Nat} {c : Command}

/-! ### One command -/

theorem Effect.advances (h : Effect m codec d position c d') :
    Advances d.recording.batches.toList d'.recording.batches.toList ∧
      d.recording.pool.toList <+: d'.recording.pool.toList := by
  rcases h.window_cases with ⟨-, -, -, hr⟩ | ⟨-, rfl⟩ | ⟨-, epoch, he, rfl⟩
  · rw [hr]
    exact ⟨.same _, List.prefix_rfl⟩
  · rw [loadVertices_recording]
    cases d.state.boundary? with
    | none => exact ⟨.same _, List.prefix_rfl⟩
    | some boundary =>
      rw [Option.elim_some, toList_openBatch, pool_openBatch]
      exact ⟨.opened _ _ rfl, List.prefix_rfl⟩
  · obtain ⟨older, b, hb, -⟩ := (epoch?_eq_some_iff _).mp he
    have hfed : Fed older b d.recording.pool.toList
        (c.faces.foldl (drawTriangle m position epoch) d).recording :=
      foldl_drawTriangle_induction (P := Fed older b d.recording.pool.toList) (by simp [he])
        ⟨⟨b, hb, .refl b⟩, List.prefix_rfl⟩ fun _ _ _ _ _ _ _ h => h.addTriangle _ _
    obtain ⟨b', hb', hcontinues⟩ := hfed.batches
    rw [hb, hb']
    exact ⟨.drawn older hcontinues, hfed.pool⟩

theorem journal_foldl_drawTriangle (m : Model) (position : Nat) (epoch : UInt32) (d : Decoder)
    (faces : List (Triangle Nat)) :
    d.journal <+: (faces.foldl (drawTriangle m position epoch) d).journal := by
  induction faces generalizing d with
  | nil => exact List.prefix_rfl
  | cons slots faces ih =>
    refine List.IsPrefix.trans ?_ (ih _)
    rw [drawTriangle_eq]
    split
    · rw [record_journal]
      exact List.prefix_append _ _
    · exact List.prefix_rfl

theorem Effect.journal (h : Effect m codec d position c d') : d.journal <+: d'.journal := by
  cases h with
  | idle => exact List.prefix_rfl
  | selectNull => exact List.prefix_rfl
  | bindTexture =>
    rw [Decoder.bindTexture_eq, bindWith_journal]
    exact List.prefix_append _ _
  | setTile => exact List.prefix_rfl
  | loadPalette =>
    rw [loadPalette_journal]
    exact List.prefix_append _ _
  | setScale => exact List.prefix_rfl
  | loadVertices =>
    rw [loadVertices_eq]
    cases d.state.boundary? with
    | none =>
      rw [Option.elim_none, loadWindow_journal]
      exact List.prefix_append _ _
    | some boundary =>
      rw [Option.elim_some, openBatch_journal, loadWindow_journal]
      simp only [List.append_assoc]
      exact List.prefix_append _ _
  | stray => exact List.prefix_rfl
  | draw => exact journal_foldl_drawTriangle m position _ d c.faces

theorem Effect.materials (h : Effect m codec d position c d') :
    d.table.materials.toList <+: d'.table.materials.toList := by
  by_cases htakes : c.opcode? = some .loadVertices ∧ d.state.boundary? = some .texture
  · rw [h.eq_of_load htakes.1, loadVertices_table, htakes.2, Option.elim_some]
    exact materials_materialFor _ _ _ _ _ _
  · have hsame := (h.keeps_table fun ho hb => htakes ⟨ho, hb⟩).1.materials_eq
    exact ⟨[], by rw [List.append_nil, hsame]⟩

theorem Effect.growsByOne (h : Effect m codec d position c d') : GrowsByOne d.table d'.table := by
  cases h with
  | idle => exact growsByOne_of_size_eq rfl
  | selectNull => exact growsByOne_of_size_eq rfl
  | bindTexture =>
    simp only [Decoder.bindTexture_eq, bindWith_table]
    exact growsByOne_bind _ _ _ _ _ _
  | setTile => exact growsByOne_of_size_eq (size_modify _ _ _)
  | loadPalette =>
    rw [loadPalette_table]
    exact growsByOne_of_size_eq (size_loadPalette _ _ _ _ _)
  | setScale => exact growsByOne_of_size_eq rfl
  | loadVertices =>
    rw [loadVertices_table]
    cases d.state.boundary? with
    | none => exact growsByOne_of_size_eq rfl
    | some boundary =>
      cases boundary with
      | null => exact growsByOne_of_size_eq rfl
      | texture => exact growsByOne_of_size_eq (size_materialFor _ _ _ _ _ _)
  | stray => exact growsByOne_of_size_eq rfl
  | draw =>
    rw [foldl_drawTriangle_table]
    exact growsByOne_of_size_eq rfl

/-- What a command that succeeds makes of a decoder. -/
structure Appends (d d' : Decoder) : Prop where
  batches : Advances d.recording.batches.toList d'.recording.batches.toList
  pool : d.recording.pool.toList <+: d'.recording.pool.toList
  materials : d.table.materials.toList <+: d'.table.materials.toList
  journal : d.journal <+: d'.journal
  diagnostics : d.diagnostics <+: d'.diagnostics
  textures_size : GrowsByOne d.table d'.table
  texture : Revised Texture.Retains d.table d'.table

theorem Effect.appends (h : Effect m codec d position c d') : Appends d d' where
  batches := h.advances.1
  pool := h.advances.2
  materials := h.materials
  journal := h.journal
  diagnostics := h.journal.filterMap _
  textures_size := h.growsByOne
  texture := h.revised Texture.persists_retains fun _ => Texture.scales_retains

/-- A command that fails leaves everything as it was, and one that succeeds only appends. This
holds of every decoder, whether a run reaches it or not, and at every position; one that is a size
of 64 bits leaves room for the commands looked ahead at below `2 ^ 64 - 4`. -/
theorem step_appends (m : Model) (codec : Codec) (d : Decoder) (position : Nat) (c : Command) :
    (∀ e d', d.step m codec position c = (.error e, d') → d' = d) ∧
    (∀ d', d.step m codec position c = (.ok (), d') → Appends d d') := by
  refine ⟨fun e d' hstep => ?_, fun d' hstep => ?_⟩
  · by_cases hf : c.faces ≠ []
    · obtain ⟨opcode, -, hfaces⟩ := step_of_faces m codec d position hf
      rw [hfaces, drawFaces_eq] at hstep
      split at hstep
      · exact (Prod.ext_iff.mp hstep).2.symm
      · cases hstep
    · -- only the two face commands can fail
      rw [Command.faces_ne_nil_iff, not_or] at hf
      rw [step_eq] at hstep
      split at hstep <;> simp_all
  · have heffect := step_effect m codec d position c
    rw [hstep] at heffect
    exact heffect.appends

/-- A quad of which one triangle is drawn and the other reported. -/
def sampleHalf : Model where
  vertices := .replicate 3 {}
  commands := #[.ofFields 4 0 12 0 0]

/-- Before any load the quad is refused, and after the load it is drawn in part. -/
theorem step_appends_half :
    (∃ e, (start sampleHalf).step sampleHalf .packed 0 (.ofFields 177 0 2 4 0x2040A) =
        (.error e, start sampleHalf)) ∧
    ∃ d', (before sampleHalf .packed 1).step sampleHalf .packed 1 (.ofFields 177 0 2 4 0x2040A) =
        (.ok (), d') ∧ Appends (before sampleHalf .packed 1) d' ∧
      d'.recording.pool.size = 3 ∧ d'.diagnostics.length = 1 := by
  refine ⟨⟨_, Prod.ext rfl ?_⟩, _, rfl, (step_appends sampleHalf .packed
    (before sampleHalf .packed 1) 1 (.ofFields 177 0 2 4 0x2040A)).2 _ rfl, rfl, rfl⟩
  exact (step_appends sampleHalf .packed (start sampleHalf) 0 (.ofFields 177 0 2 4 0x2040A)).1
    _ _ rfl

/-! ### Whole runs -/

/-- What any number of commands leaves of a decoder: every batch but the last is as it was, and
the last one may have got more faces. -/
structure Outlasts (d d' : Decoder) : Prop where
  closed : ∀ k, k + 1 < d.recording.batches.size →
    d'.recording.batches.toList[k]? = d.recording.batches.toList[k]?
  batch : ∀ (k : Nat) b, d.recording.batches.toList[k]? = some b →
    ∃ b', d'.recording.batches.toList[k]? = some b' ∧ b.Continues b'
  size_le : d.recording.batches.size ≤ d'.recording.batches.size
  pool : d.recording.pool.toList <+: d'.recording.pool.toList
  materials : d.table.materials.toList <+: d'.table.materials.toList
  journal : d.journal <+: d'.journal
  texture : Revised Texture.Retains d.table d'.table

theorem Appends.outlasts (h : Appends d d') : Outlasts d d' where
  closed k hk := h.batches.getElem?_eq (by simpa using hk)
  batch k b hb := h.batches.continues hb
  size_le := by simpa using h.batches.length_le
  pool := h.pool
  materials := h.materials
  journal := h.journal
  texture := h.texture

protected theorem Outlasts.refl (d : Decoder) : Outlasts d d where
  closed _ _ := rfl
  batch _ b hb := ⟨b, hb, .refl b⟩
  size_le := Nat.le_refl _
  pool := List.prefix_rfl
  materials := List.prefix_rfl
  journal := List.prefix_rfl
  texture := revised_refl Texture.persists_retains _

protected theorem Outlasts.trans (h : Outlasts d d') (h' : Outlasts d' e) : Outlasts d e where
  closed k hk := (h'.closed k (Nat.lt_of_lt_of_le hk h.size_le)).trans (h.closed k hk)
  batch k b hb := by
    obtain ⟨b', hb', hcontinues⟩ := h.batch k b hb
    obtain ⟨b'', hb'', hcontinues'⟩ := h'.batch k b' hb'
    exact ⟨b'', hb'', hcontinues.trans hcontinues'⟩
  size_le := Nat.le_trans h.size_le h'.size_le
  pool := h.pool.trans h'.pool
  materials := h.materials.trans h'.materials
  journal := h.journal.trans h'.journal
  texture := h.texture.trans Texture.persists_retains h'.texture

/-- Nothing that a run has put down is rewritten by the rest of it. -/
theorem outlasts_before (m : Model) (codec : Codec) (hpq : p ≤ q) :
    Outlasts (before m codec p) (before m codec q) :=
  before_mono .refl .trans (fun d position c => (step_effect m codec d position c).appends.outlasts)
    hpq

end Decoder

end DisplayList

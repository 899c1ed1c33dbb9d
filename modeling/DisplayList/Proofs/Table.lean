import DisplayList.Proofs.Drawing
import DisplayList.Proofs.Run

/-!
# What happens to the texture table

Commands rename formats, set ratios and load palettes, and may add textures; none of that
makes a material, asks the codec or changes an image. Only a load that takes a new texture
does, and `materialFor` is followed through its three cases here.
-/
namespace DisplayList

/-- The problems that a codec reported. -/
def Diagnostic.refusals (ds : List Diagnostic) : List Diagnostic :=
  ds.filter fun d => d.kind = .textureDecode

@[simp] theorem Diagnostic.refusals_nil : refusals [] = [] := rfl

@[simp] theorem Diagnostic.refusals_append (ds es : List Diagnostic) :
    refusals (ds ++ es) = refusals ds ++ refusals es :=
  List.filter_append ..

theorem Diagnostic.refusals_eq_nil {ds : List Diagnostic}
    (h : ∀ e ∈ ds, e.kind ≠ .textureDecode) : refusals ds = [] :=
  List.filter_eq_nil_iff.mpr (by simpa using h)

/-- What the codec is to be asked for a texture: nothing if there is an image. -/
def Texture.request? (t : Texture) (data : Bytes) : Option CodecRequest :=
  if t.pixels.isSome then none else some ⟨t, data.drop t.dataOffset.toNat⟩

namespace TextureTable

/-- The image of a texture, which may be missing, as may be the texture. -/
def pixels? (table : TextureTable) (index : Nat) : Option (Option PixelBuffer) :=
  table.textures[index]?.map Texture.pixels

/-- One table after another without anything drawn in between. -/
structure Keeps (before after : TextureTable) : Prop where
  materials_eq : after.materials = before.materials
  requests_eq : after.requests = before.requests
  pixels : ∀ i image, before.pixels? i = some image → after.pixels? i = some image

namespace Keeps

variable {a b c : TextureTable}

protected theorem refl (a : TextureTable) : a.Keeps a :=
  ⟨rfl, rfl, fun _ _ h => h⟩

protected theorem trans (h : a.Keeps b) (h' : b.Keeps c) : a.Keeps c :=
  ⟨h'.materials_eq.trans h.materials_eq, h'.requests_eq.trans h.requests_eq,
    fun i image hi => h'.pixels i image (h.pixels i image hi)⟩

end Keeps

theorem keeps_modify (table : TextureTable) (index : Nat) (f : Texture → Texture)
    (hf : ∀ t, (f t).pixels = t.pixels) : table.Keeps (table.modify index f) := by
  refine ⟨rfl, rfl, fun i image hi => ?_⟩
  simp only [pixels?, modify, Array.getElem?_modify, Option.map_eq_some_iff] at hi ⊢
  obtain ⟨t, ht, rfl⟩ := hi
  by_cases hindex : index = i
  · exact ⟨f t, by simp [hindex, ht], hf t⟩
  · exact ⟨t, by simp [hindex, ht], rfl⟩

theorem keeps_grow (table : TextureTable) (address : UInt32) (format : TexelFormat) :
    table.Keeps (table.grow address format) := by
  refine ⟨rfl, rfl, fun i image hi => ?_⟩
  simp only [pixels?, grow, Array.getElem?_push, Option.map_eq_some_iff] at hi ⊢
  obtain ⟨t, ht, rfl⟩ := hi
  have hlt := (Array.getElem?_eq_some_iff.mp ht).1
  exact ⟨t, by rw [if_neg (by omega), ht], rfl⟩

variable (table : TextureTable) (data : Bytes) (position index size : Nat) (c : Command)

/-- The texture bound is the first one that answers to the address, or one that is added. -/
theorem select_index : (table.select position c).2.1 =
    (table.find? c.address).getD table.textures.size := by
  rw [select_eq]
  cases table.find? c.address <;> rfl

theorem keeps_select : table.Keeps (table.select position c).1 := by
  rw [select_eq]
  split
  · exact .refl table
  · exact keeps_grow table _ _

theorem kind_of_mem_select {e : Diagnostic}
    (h : e ∈ (table.select position c).2.2.diagnostics) : e.kind = .unknownTexture := by
  rw [select_eq] at h
  split at h
  · simp at h
  · rw [List.mem_singleton.mp h]
    rfl

theorem refusals_select :
    Diagnostic.refusals (table.select position c).2.2.diagnostics = [] :=
  Diagnostic.refusals_eq_nil fun e he => by simp [kind_of_mem_select _ _ _ he]

theorem keeps_bind (tile : Option Tile) (sScale tScale : Float32) :
    table.Keeps (table.bind position c tile sScale tScale).1 := by
  refine (keeps_select table position c).trans (keeps_modify _ _ _ fun t => ?_)
  cases tile <;> rfl

theorem keeps_setTile (tile : Tile) : table.Keeps (table.setTile index tile) :=
  keeps_modify table index _ fun _ => rfl

theorem keeps_loadPalette : table.Keeps (table.loadPalette data position index size).1 := by
  rw [loadPalette_eq]
  split
  · exact keeps_modify table index _ fun _ => rfl
  · exact .refl table

theorem kind_of_mem_loadPalette {e : Diagnostic}
    (h : e ∈ (table.loadPalette data position index size).2.diagnostics) :
    e.kind = .paletteOutOfRange := by
  rw [loadPalette_eq] at h
  split at h
  · simp at h
  · rw [List.mem_singleton.mp h]
    rfl

theorem refusals_loadPalette :
    Diagnostic.refusals (table.loadPalette data position index size).2.diagnostics = [] :=
  Diagnostic.refusals_eq_nil fun e he => by simp [kind_of_mem_loadPalette _ _ _ _ _ he]

/-! ### The material of a texture -/

section MaterialFor

variable (codec : Codec) (wrapS wrapT : WrapMode) {table data index} {t : Texture}

theorem materialFor_of_none (ht : table.textures[index]? = none) :
    table.materialFor codec data index wrapS wrapT = (table, none, []) := by
  simp only [materialFor, ht]

theorem materialFor_of_some (ht : table.textures[index]? = some t) {material : Nat}
    (hm : table.materialOf? index = some material) :
    table.materialFor codec data index wrapS wrapT = (table, some material, []) := by
  simp only [materialFor, ht, hm]

theorem materialFor_of_new (ht : table.textures[index]? = some t)
    (hm : table.materialOf? index = none) :
    table.materialFor codec data index wrapS wrapT =
      ({ (table.paint codec data index t).1 with
          materials := (table.paint codec data index t).1.materials.push
            (.forTexture index wrapS wrapT) },
        some (table.paint codec data index t).1.materials.size,
        (table.paint codec data index t).2 ++
          [.note (.materialCreated (table.paint codec data index t).1.materials.size index)]) := by
  simp only [materialFor, ht, hm, addMaterial]

variable (table data index)

@[simp] theorem paint_materials :
    (table.paint codec data index t).1.materials = table.materials := by
  unfold paint
  split
  · rfl
  · dsimp only
    split <;> rfl

@[simp] theorem paint_requests : (table.paint codec data index t).1.requests.toList =
    table.requests.toList ++ (t.request? data).toList := by
  unfold paint Texture.request?
  split
  · simp
  · dsimp only
    split <;> simp [modify]

/-- What is reported if the codec refuses a request for a texture. -/
def refusal? (index : Nat) (q : CodecRequest) : Option Diagnostic :=
  match codec q.texture q.raw with
  | .ok _ => none
  | .error e => some (.textureDecode index e.message)

theorem paint_refusals : Diagnostic.refusals (table.paint codec data index t).2.diagnostics =
    ((t.request? data).bind (refusal? codec index)).toList := by
  unfold paint Texture.request? refusal?
  split
  · rfl
  · dsimp only [Option.bind_some]
    split <;> simp_all [Diagnostic.refusals, Diagnostic.kind]

theorem kind_of_mem_paint {e : Diagnostic}
    (h : e ∈ (table.paint codec data index t).2.diagnostics) : e.kind = .textureDecode := by
  unfold paint at h
  split at h
  · simp at h
  · dsimp only at h
    split at h
    · simp at h
    · rw [List.mem_singleton.mp h]
      rfl

theorem kind_of_mem_materialFor {e : Diagnostic}
    (h : e ∈ (table.materialFor codec data index wrapS wrapT).2.2.diagnostics) :
    e.kind = .textureDecode := by
  unfold materialFor addMaterial at h
  split at h
  · simp at h
  · simp at h
  · rw [Journal.diagnostics_append, List.mem_append] at h
    rcases h with h | h
    · exact kind_of_mem_paint _ _ _ _ h
    · simp at h

/-- The image of a texture once it has been painted. -/
theorem pixels?_paint (ht : table.textures[index]? = some t) (i : Nat) :
    (table.paint codec data index t).1.pixels? i =
      if i = index then some ((t.request? data).elim t.pixels fun q =>
        (codec q.texture q.raw).toOption)
      else table.pixels? i := by
  unfold paint Texture.request?
  by_cases hp : t.pixels.isSome
  · rw [if_pos hp, if_pos hp]
    split
    · simp_all [pixels?]
    · rfl
  · have hnone : t.pixels = none := by simpa using hp
    rw [if_neg hp, if_neg hp]
    dsimp only [Option.elim_some]
    cases codec t (data.drop t.dataOffset.toNat) with
    | ok image =>
      by_cases hi : i = index
      · simp [pixels?, modify, Array.getElem?_modify, hi, ht, Except.toOption]
      · simp [pixels?, modify, Array.getElem?_modify, hi, Ne.symm hi]
    | error e =>
      by_cases hi : i = index
      · simp [pixels?, hi, ht, hnone, Except.toOption]
      · simp [pixels?, hi]

end MaterialFor

end TextureTable

namespace Decoder

open Diagnostic

variable {m : Model} {codec : Codec} {d d' : Decoder} {position : Nat} {c : Command}

theorem kind_of_mem_faceProblems {outcomes : List (Except (Nat × SlotFault) (Triangle UInt32))}
    {e : Diagnostic} (h : e ∈ outcomes.filterMap (faceProblem? position)) :
    e.kind = .unresolvedSlot := by
  obtain ⟨outcome, -, ho⟩ := List.mem_filterMap.mp h
  cases outcome with
  | ok vertices => simp [faceProblem?] at ho
  | error fault =>
    rw [← Option.some.inj ho]
    rfl

theorem refusals_faceProblems (outcomes : List (Except (Nat × SlotFault) (Triangle UInt32))) :
    refusals (outcomes.filterMap (faceProblem? position)) = [] :=
  refusals_eq_nil fun e he => by simp [kind_of_mem_faceProblems he]

theorem kind_of_mem_skips {skips : List SkippedSlot} {e : Diagnostic}
    (h : e ∈ skips.map (SkippedSlot.diagnostic position)) :
    e.kind = .indexOverflow ∨ e.kind = .slotOutOfWindow := by
  obtain ⟨skip, -, rfl⟩ := List.mem_map.mp h
  cases skip with
  | overflow slot vertex => exact .inl rfl
  | outOfWindow slot => exact .inr rfl

theorem refusals_skips (skips : List SkippedSlot) :
    refusals (skips.map (SkippedSlot.diagnostic position)) = [] :=
  refusals_eq_nil fun e he => by rcases kind_of_mem_skips he with hk | hk <;> simp [hk]

/-- A load reports what the codec refuses when a change that is due is settled. -/
theorem kind_of_mem_takeMaterial {e : Diagnostic}
    (h : e ∈ d.state.boundary?.elim [] fun b => (d.takeMaterial m codec b).2.2.diagnostics) :
    e.kind = .textureDecode := by
  cases hb : d.state.boundary? with
  | none => simp [hb] at h
  | some b =>
    rw [hb, Option.elim_some] at h
    cases b with
    | null => simp [takeMaterial] at h
    | texture => exact TextureTable.kind_of_mem_materialFor _ _ _ _ _ _ h

theorem loadVertices_refusals : refusals (d.loadVertices m codec position c).diagnostics =
    refusals d.diagnostics ++ d.state.boundary?.elim [] fun b =>
      refusals (d.takeMaterial m codec b).2.2.diagnostics := by
  rw [loadVertices_diagnostics, refusals_append, refusals_append, refusals_skips, List.append_nil]
  cases d.state.boundary? <;> rfl

/-- Only a load that takes a texture makes a material, asks the codec or changes an image. -/
theorem Effect.keeps_table (h : Effect m codec d position c d')
    (hload : c.opcode? = some .loadVertices → d.state.boundary? ≠ some .texture) :
    d.table.Keeps d'.table ∧ refusals d'.diagnostics = refusals d.diagnostics := by
  cases h with
  | idle => exact ⟨.refl _, rfl⟩
  | selectNull => exact ⟨.refl _, rfl⟩
  | bindTexture =>
    refine ⟨?_, ?_⟩
    · simp only [Decoder.bindTexture_eq, bindWith_table]
      exact d.table.keeps_bind ..
    · simp [Decoder.bindTexture_eq, diagnostics, TextureTable.refusals_select]
  | setTile => exact ⟨d.table.keeps_setTile .., rfl⟩
  | loadPalette =>
    refine ⟨?_, ?_⟩
    · rw [loadPalette_table]
      exact d.table.keeps_loadPalette ..
    · simp [diagnostics, TextureTable.refusals_loadPalette]
  | setScale => exact ⟨.refl _, rfl⟩
  | loadVertices ho =>
    rw [loadVertices_table, loadVertices_refusals]
    cases hb : d.state.boundary? with
    | none => exact ⟨.refl _, by simp⟩
    | some boundary =>
      cases boundary with
      | null => exact ⟨.refl _, by simp [takeMaterial]⟩
      | texture => exact absurd hb (hload ho)
  | stray => exact ⟨.refl _, rfl⟩
  | draw hf he =>
    obtain ⟨older, b, hb, -⟩ := (Recording.epoch?_eq_some_iff _).mp he
    obtain ⟨b', -, -, -, -, hdiags⟩ := foldl_drawTriangle m position _ hb c.faces
    rw [foldl_drawTriangle_table, hdiags, refusals_append, refusals_faceProblems, List.append_nil]
    exact ⟨.refl _, rfl⟩

end Decoder

end DisplayList

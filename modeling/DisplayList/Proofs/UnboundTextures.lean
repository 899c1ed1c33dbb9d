import DisplayList.Proofs.Images
import DisplayList.Proofs.SteadyRatios

/-!
# Textures that are never bound

A command writes to one texture at most: the one that is bound when it has been carried out. So
whatever tiles, palettes, scales and loads there are, a texture that no command binds is at the
end what it was in the model. Only the first one is bound without a command. Behind the
textures of the model there is one more for each report of an unknown address, and nothing else.
-/
namespace DisplayList

namespace Diagnostic

/-- The reports of unknown addresses. -/
def unknowns (ds : List Diagnostic) : List Diagnostic :=
  ds.filter fun d => d.kind = .unknownTexture

@[simp] theorem unknowns_append (ds es : List Diagnostic) :
    unknowns (ds ++ es) = unknowns ds ++ unknowns es :=
  List.filter_append ..

theorem unknowns_eq_nil {ds : List Diagnostic} (h : ∀ e ∈ ds, e.kind ≠ .unknownTexture) :
    unknowns ds = [] :=
  List.filter_eq_nil_iff.mpr (by simpa using h)

end Diagnostic

namespace TextureTable

variable (table : TextureTable) (data : Bytes) (position index size : Nat) (c : Command)

section Others

variable {i : Nat}

theorem getElem?_modify_of_ne (hi : i ≠ index) (f : Texture → Texture) :
    (table.modify index f).textures[i]? = table.textures[i]? := by
  simp [modify, Array.getElem?_modify, hi.symm]

/-- A texture is only added where it is then bound. -/
theorem getElem?_select_of_ne (hi : i ≠ (table.select position c).2.1) :
    (table.select position c).1.textures[i]? = table.textures[i]? := by
  rw [select_eq] at hi ⊢
  split
  · rfl
  · rename_i hnone
    simp only [hnone] at hi
    simp only [grow, Array.getElem?_push]
    rw [if_neg hi]

theorem getElem?_bind_of_ne (hi : i ≠ (table.select position c).2.1) (tile : Option Tile)
    (sScale tScale : Float32) :
    (table.bind position c tile sScale tScale).1.textures[i]? = table.textures[i]? :=
  (getElem?_modify_of_ne _ _ hi _).trans (table.getElem?_select_of_ne position c hi)

theorem getElem?_loadPalette_of_ne (hi : i ≠ index) :
    (table.loadPalette data position index size).1.textures[i]? = table.textures[i]? := by
  rw [loadPalette_eq]
  split
  · exact table.getElem?_modify_of_ne index hi _
  · rfl

theorem getElem?_materialFor_of_ne (hi : i ≠ index) (codec : Codec) (wrapS wrapT : WrapMode) :
    (table.materialFor codec data index wrapS wrapT).1.textures[i]? = table.textures[i]? := by
  unfold materialFor addMaterial
  split
  · rfl
  · rfl
  · exact table.getElem?_textures_paint index data codec _ hi

end Others

/-- What is added for an address that no texture answers to. -/
def added (c : Command) : Texture :=
  { dataOffset := c.address, format := c.texelFormat, width := 0, height := 0 }

/-- An address that a texture answers to is not reported and adds nothing. -/
theorem size_bind_of_some {i : Nat} (h : table.find? c.address = some i) (tile : Option Tile)
    (sScale tScale : Float32) :
    (table.bind position c tile sScale tScale).1.textures.size = table.textures.size := by
  simp [bind_eq, select_eq, h]

/-- An unknown address adds one texture at the end. -/
theorem bind_of_none (h : table.find? c.address = none) (tile : Option Tile)
    (sScale tScale : Float32) :
    (table.bind position c tile sScale tScale).1.textures.size = table.textures.size + 1 ∧
    ∃ u, (table.bind position c tile sScale tScale).1.textures[table.textures.size]? = some u ∧
      Texture.Became (added c) u := by
  refine ⟨by simp [bind_eq, select_eq, h, grow], ((tile.elim (added c) (added c).applyTile).rescale
    sScale tScale), ?_, ?_⟩
  · simp only [bind_eq, select_eq, h, grow, modify]
    rw [Array.getElem?_modify, if_pos rfl, Array.getElem?_push_size]
    rfl
  · have hscaled (t : Texture) := Texture.scales_became t sScale tScale
    cases tile with
    | none => exact hscaled _
    | some tile =>
      exact Texture.persists_became.trans (Texture.persists_became.applyTile _ tile) (hscaled _)

end TextureTable

namespace Decoder

open Diagnostic Texture TextureTable

variable {m : Model} {codec : Codec} {d d' : Decoder} {p i position : Nat} {c : Command}

/-! ### One command -/

/-- A command changes no texture but the one that is bound when it has been carried out. -/
theorem Effect.getElem?_textures (h : Effect m codec d position c d')
    (hi : i ≠ d'.state.texture) : d'.table.textures[i]? = d.table.textures[i]? := by
  cases h with
  | idle => rfl
  | selectNull => rfl
  | bindTexture => exact d.table.getElem?_bind_of_ne position c hi _ _ _
  | setTile => exact d.table.getElem?_modify_of_ne _ hi _
  | loadPalette =>
    have hbound : (d.loadPalette m position c).state.texture = d.state.texture := by
      rw [loadPalette_state]
      split <;> rfl
    rw [hbound] at hi
    rw [loadPalette_table]
    exact d.table.getElem?_loadPalette_of_ne _ _ _ _ hi
  | setScale => rfl
  | loadVertices =>
    rw [loadVertices_state] at hi
    rw [loadVertices_table]
    cases d.state.boundary? with
    | none => rfl
    | some boundary =>
      cases boundary with
      | null => rfl
      | texture => exact d.table.getElem?_materialFor_of_ne _ _ hi _ _ _
  | stray => rfl
  | draw => rw [foldl_drawTriangle_table]

/-- The reports of unknown addresses: only a command that binds one makes one. -/
theorem Effect.unknowns_eq (h : Effect m codec d position c d') :
    unknowns d'.diagnostics = unknowns d.diagnostics ++
      if c.opcode? = some .bindTexture ∧ d.table.find? c.address = none then
        [.unknownTexture position c.address]
      else [] := by
  cases h with
  | idle h => rcases h with h | h | h <;> simp [h]
  | selectNull h | setTile h | setScale h =>
    rw [if_neg (by simp [h]), List.append_nil]
    rfl
  | bindTexture h =>
    rw [Decoder.bindTexture_eq, diagnostics, bindWith_journal, Journal.diagnostics_append,
      unknowns_append, select_eq]
    cases d.table.find? c.address with
    | none => simp [h, unknowns, kind, diagnostics]
    | some i => simp [unknowns, diagnostics]
  | loadPalette h =>
    have hpalette : unknowns (d.table.loadPalette m.textureData position d.state.texture
        (Command.paletteLength c.operand)).2.diagnostics = [] :=
      unknowns_eq_nil fun e he => by simp [kind_of_mem_loadPalette _ _ _ _ _ he]
    rw [if_neg (by simp [h]), diagnostics, loadPalette_journal, Journal.diagnostics_append,
      unknowns_append, hpalette]
    rfl
  | loadVertices h =>
    have hskips (skips : List SkippedSlot) :
        unknowns (skips.map (SkippedSlot.diagnostic position)) = [] :=
      unknowns_eq_nil fun e he => by rcases kind_of_mem_skips he with hk | hk <;> simp [hk]
    have hmaterial : unknowns (d.state.boundary?.elim [] fun b =>
        (d.takeMaterial m codec b).2.2.diagnostics) = [] :=
      unknowns_eq_nil fun e he => by simp [kind_of_mem_takeMaterial he]
    rw [if_neg (by simp [h]), loadVertices_diagnostics, unknowns_append, unknowns_append, hskips,
      hmaterial, List.append_nil]
  | stray h => rcases c.faces_ne_nil_iff.mp h with ho | ho <;> simp [ho]
  | draw h he =>
    obtain ⟨older, b, hb, -⟩ := (Recording.epoch?_eq_some_iff _).mp he
    obtain ⟨b', -, -, -, -, hdiags⟩ := foldl_drawTriangle m position _ hb c.faces
    have hfaces (outcomes : List (Except (Nat × SlotFault) (Triangle UInt32))) :
        unknowns (outcomes.filterMap (faceProblem? position)) = [] :=
      unknowns_eq_nil fun e he => by simp [kind_of_mem_faceProblems he]
    rw [hdiags, unknowns_append, hfaces, List.append_nil]
    rcases c.faces_ne_nil_iff.mp h with ho | ho <;> simp [ho]

/-- What a command that binds a texture comes to. -/
theorem Effect.eq_bindTexture (h : Effect m codec d position c d')
    (ho : c.opcode? = some .bindTexture) : d' = d.bindTexture m position c := by
  cases h with
  | bindTexture => rfl
  | idle h => simp [ho] at h
  | selectNull h | setTile h | loadPalette h | setScale h | loadVertices h => simp [ho] at h
  | stray hf | draw hf => rcases c.faces_ne_nil_iff.mp hf with h | h <;> simp [ho] at h

/-- A command adds a texture exactly if it reports an unknown address. -/
theorem Effect.size_textures (h : Effect m codec d position c d') :
    d'.table.textures.size = d.table.textures.size +
      if c.opcode? = some .bindTexture ∧ d.table.find? c.address = none then 1 else 0 := by
  by_cases ho : c.opcode? = some .bindTexture
  · rw [h.eq_bindTexture ho, Decoder.bindTexture_eq, bindWith_table]
    cases hfind : d.table.find? c.address with
    | none => simp [ho, (d.table.bind_of_none position c hfind _ _ _).1]
    | some i => simp [d.table.size_bind_of_some position c hfind]
  · rw [h.size_textures_eq ho, if_neg fun hc => ho hc.1, Nat.add_zero]

/-! ### Whole runs -/

/-- The command at `p` binds the `i`-th texture. -/
def Binds (m : Model) (codec : Codec) (p i : Nat) : Prop :=
  (m.bind? p).isSome ∧ (before m codec (p + 1)).state.texture = i

/-- What is bound at any time is the first texture or has been bound by a command. -/
theorem texture_before_cases (m : Model) (codec : Codec) (p : Nat) :
    (before m codec p).state.texture = 0 ∨
      ∃ q < p, Binds m codec q (before m codec p).state.texture := by
  rcases selected_before m codec p with ⟨q, c, hlast, htexture⟩ | ⟨-, hzero⟩
  · refine .inr ⟨q, hlast.earlier, by simp [hlast.bind], ?_⟩
    obtain ⟨hc, ho⟩ := Model.bind?_eq_some_iff.mp hlast.bind
    rw [htexture, (effect_before hc).texture_eq, if_pos ho]
  · exact .inl hzero

section Unbound

variable (hi : i ≠ 0) (hno : ∀ q, ¬ Binds m codec q i)

include hi hno

theorem texture_before_ne (p : Nat) : i ≠ (before m codec p).state.texture := by
  rintro rfl
  rcases texture_before_cases m codec p with hzero | ⟨q, -, hbinds⟩
  · exact hi hzero
  · exact hno q hbinds

theorem getElem?_before (p : Nat) :
    (before m codec p).table.textures[i]? = m.textures[i]? := by
  induction p with
  | zero => rfl
  | succ p ih =>
    cases hc : m.commands[p]? with
    | none => rw [before_succ_of_none hc, ih]
    | some c => rw [(effect_before hc).getElem?_textures (texture_before_ne hi hno _), ih]

/-- No material is made for it, since a load only takes the texture that is bound. -/
theorem texture_ne_of_mem_materials {material : Material}
    (hmem : material ∈ (before m codec p).table.materials.toList) : material.texture ≠ some i := by
  obtain ⟨uses, huses⟩ := exists_catalogued m codec p
  rw [huses.materials_eq, List.mem_cons, List.mem_map] at hmem
  rcases hmem with rfl | ⟨u, hu, rfl⟩
  · simp [Material.null]
  · obtain ⟨-, htakes, -⟩ := (huses.firsts.mem_iff u).mp hu
    intro htexture
    have hsame : u.texture = i := Option.some.inj htexture
    exact texture_before_ne hi hno u.position (by rw [htakes.bound, hsame])

end Unbound

/-- The textures of a decoder behind those of the model: one for each report of an unknown
address, in the order of the reports, where the command reported has its address. -/
structure AddedAsReported (m : Model) (d : Decoder) : Prop where
  size_eq : d.table.textures.size = m.textures.size + (unknowns d.diagnostics).length
  added : ∀ (k : Nat) e, (unknowns d.diagnostics)[k]? = some e → ∃ p c u, m.bind? p = some c ∧
    e = .unknownTexture p c.address ∧
    d.table.textures[m.textures.size + k]? = some u ∧ Became (TextureTable.added c) u

theorem addedAsReported_start (m : Model) : AddedAsReported m (start m) :=
  ⟨rfl, fun k e he => by simp [start, diagnostics, journal, unknowns] at he⟩

/-- A command keeps this: it adds a texture together with its report. -/
theorem AddedAsReported.effect (h : AddedAsReported m d) (hc : m.commands[position]? = some c)
    (heffect : Effect m codec d position c d') : AddedAsReported m d' := by
  refine ⟨?_, fun k e he => ?_⟩
  · rw [heffect.size_textures, heffect.unknowns_eq, h.size_eq, List.length_append]
    split <;> simp [Nat.add_assoc]
  · rw [heffect.unknowns_eq] at he
    by_cases hk : k < (unknowns d.diagnostics).length
    · rw [List.getElem?_append_left hk] at he
      obtain ⟨p, c', u, hbind, hreport, hu, hbecame⟩ := h.added k e he
      obtain ⟨v, hv, huv⟩ := heffect.revised persists_became (fun _ => scales_became) _ u hu
      exact ⟨p, c', v, hbind, hreport, hv, persists_became.trans hbecame huv⟩
    · -- the report is the one that this command makes
      rw [List.getElem?_append_right (Nat.le_of_not_lt hk)] at he
      by_cases hnew : c.opcode? = some .bindTexture ∧ d.table.find? c.address = none
      · rw [if_pos hnew, List.getElem?_singleton] at he
        split at he
        · obtain ⟨ho, hfind⟩ := hnew
          have hplace : m.textures.size + k = d.table.textures.size := by
            rw [h.size_eq]
            omega
          rw [heffect.eq_bindTexture ho, Decoder.bindTexture_eq, bindWith_table]
          obtain ⟨-, u, hu, hbecame⟩ := d.table.bind_of_none position c hfind
            (upcomingTile? m position) _ _
          exact ⟨position, c, u, Model.bind?_eq_some_iff.mpr ⟨hc, ho⟩, (Option.some.inj he).symm,
            hplace ▸ hu, hbecame⟩
        · cases he
      · simp [hnew] at he

theorem addedAsReported_before (m : Model) (codec : Codec) (p : Nat) :
    AddedAsReported m (before m codec p) := by
  induction p with
  | zero => exact addedAsReported_start m
  | succ p ih =>
    cases hc : m.commands[p]? with
    | none => rwa [before_succ_of_none hc]
    | some c => exact ih.effect hc (effect_before hc)

/-- What a run makes of the textures: the unbound ones are as they were and have no material, all
of the model's are in their places, and others only follow where they were reported. -/
structure KeepsTextures (m : Model) (codec : Codec) (r : Decoder) : Prop where
  unbound : ∀ i, i ≠ 0 → (∀ q, ¬ Binds m codec q i) →
    r.table.textures[i]? = m.textures[i]? ∧
      ∀ material ∈ r.table.materials.toList, material.texture ≠ some i
  kept : ∀ (i : Nat) t, m.textures[i]? = some t →
    ∃ u, r.table.textures[i]? = some u ∧ Became t u
  added : AddedAsReported m r

/-- Whatever a run carries out, it writes to no texture that it does not bind, apart from the
first, and it adds exactly the textures that it reports as unknown. -/
theorem run_keeps_textures (m : Model) (codec : Codec) (limit : Nat) (r : Decoder)
    (hrun : (run m codec limit (start m)).result = .ok r) : KeepsTextures m codec r := by
  obtain ⟨rfl, -⟩ := run_eq_ok hrun
  have hadded := addedAsReported_before m codec m.commands.size
  refine ⟨fun i hi hno => ⟨getElem?_before hi hno _, fun material hmem => ?_⟩,
    fun i t ht => ?_, hadded.size_eq.trans (by rw [finish_diagnostics]), fun k e he => ?_⟩
  · exact texture_ne_of_mem_materials hi hno hmem
  · exact revised_before m codec persists_became (Nat.zero_le _)
      (fun _ _ _ _ => scales_became) i t ht
  · rw [finish_diagnostics] at he
    exact hadded.added k e he

/-- A tile that is found past another binding, a palette, scales and a load; the texture in the
middle is not bound. -/
def sampleUnbound : Model where
  vertices := .replicate 3 {}
  textures := #[{ dataOffset := 0, format := .rgba16, width := 1, height := 1 },
    { dataOffset := 2, format := .rgba16, width := 1, height := 1, tile := some ⟨0, 2, 2, 0⟩ },
    { dataOffset := 4, format := .rgba16, width := 1, height := 1 }]
  textureData := [1, 2, 3, 4, 5, 6]
  commands := #[.ofFields 253 0 0 0 8, .ofFields 253 0 0 0 4, .ofFields 245 0x88 0 0 0x80200,
    .ofFields 240 0 0 0 0, .ofFields 187 0 0 0 0x80008000, .ofFields 4 0 12 0 0,
    .ofFields 191 0 0 0 0x204]

theorem run_keeps_textures_middle :
    (∀ q, ¬ Binds sampleUnbound .packed q 1) ∧
    ∃ r, (run sampleUnbound .packed 7 (start sampleUnbound)).result = .ok r ∧
      unknowns r.diagnostics = [.unknownTexture 0 8] ∧ KeepsTextures sampleUnbound .packed r := by
  refine ⟨fun q ⟨hbind, htexture⟩ => ?_, _, rfl, by decide +kernel,
    run_keeps_textures _ _ 7 _ rfl⟩
  have hq : q < 7 := by
    obtain ⟨c, hc⟩ := Option.isSome_iff_exists.mp hbind
    exact (Array.getElem?_eq_some_iff.mp (Model.bind?_eq_some_iff.mp hc).1).1
  have hall : ∀ q < 7, (sampleUnbound.bind? q).isSome →
      (before sampleUnbound .packed (q + 1)).state.texture ≠ 1 := by decide +kernel
  exact hall q hq hbind htexture

end Decoder

end DisplayList

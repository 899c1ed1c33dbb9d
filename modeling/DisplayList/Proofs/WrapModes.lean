import DisplayList.Proofs.TileAnticipation
import DisplayList.Proofs.UnboundTextures

/-!
# Whose tile wraps a texture

A tile sets the wrap modes, whichever texture it is applied to, and they stay until the next tile
is applied. A texture keeps the last tile that was applied to itself. When its material is made,
the two agree if the last tile of all was applied to it, and if there was none; a texture bound
without a tile after one with a tile is wrapped like the other one.
-/
namespace DisplayList

namespace Model

variable {m : Model} {q : Nat} {c : Command}

/-- The tile that the command at `q` applies: a tile record its own, and a binding the one that
is coming up. -/
def appliedTile? (m : Model) (q : Nat) : Option Tile :=
  if (m.bind? q).isSome then Decoder.upcomingTile? m q else m.tile? q

/-- The last tile applied before the command at `p`, to whichever texture, is applied at `q`. -/
structure LastTile (m : Model) (p q : Nat) (tile : Tile) : Prop where
  earlier : q < p
  applied : m.appliedTile? q = some tile
  last : ∀ r, q < r → r < p → m.appliedTile? r = none

/-- Before a command there is a last tile or no tile at all. -/
theorem exists_lastTile_or_none (m : Model) (p : Nat) :
    (∃ q tile, m.LastTile p q tile) ∨ ∀ q < p, m.appliedTile? q = none := by
  by_cases hany : ∃ q < p, (m.appliedTile? q).isSome
  · obtain ⟨q, hq, happlies⟩ := hany
    obtain ⟨q, -, hqp, happlies, hlast⟩ :=
      exists_last_lt (P := fun q => (m.appliedTile? q).isSome) hq happlies
    obtain ⟨tile, happlied⟩ := Option.isSome_iff_exists.mp happlies
    exact .inl ⟨q, tile, hqp, happlied, fun r hr hrp => by simpa using hlast r hr hrp⟩
  · refine .inr fun q hq => ?_
    by_contra hsome
    exact hany ⟨q, hq, Option.isSome_iff_ne_none.mpr hsome⟩

theorem appliedTile?_of_none (hc : m.commands[q]? = none) : m.appliedTile? q = none := by
  simp [appliedTile?, bind?, tile?, hc]

theorem appliedTile?_of_bind (hc : m.commands[q]? = some c)
    (ho : c.opcode? = some .bindTexture) : m.appliedTile? q = Decoder.upcomingTile? m q := by
  simp [appliedTile?, bind?, hc, ho]

theorem appliedTile?_of_tile (hc : m.commands[q]? = some c) (ho : c.opcode? = some .setTile) :
    m.appliedTile? q = some c.tile := by
  simp [appliedTile?, bind?, tile?, hc, ho]

theorem appliedTile?_of_other (hc : m.commands[q]? = some c)
    (hbind : c.opcode? ≠ some .bindTexture) (htile : c.opcode? ≠ some .setTile) :
    m.appliedTile? q = none := by
  simp [appliedTile?, bind?, tile?, hc, hbind, htile]

end Model

/-- The wrap modes that a tile sets, along both axes. -/
def Tile.wraps (tile : Tile) : WrapMode × WrapMode :=
  (.ofBits tile.modeS, .ofBits tile.modeT)

/-- The wrap modes of the tile that a texture keeps; without one it repeats. -/
def Texture.wraps (t : Texture) : WrapMode × WrapMode :=
  t.tile.elim (.wrap, .wrap) Tile.wraps

/-- The wrap modes in force, along both axes. -/
def DrawState.wraps (s : DrawState) : WrapMode × WrapMode :=
  (s.wrapS, s.wrapT)

/-- The wrap modes of a material, along both axes. -/
def Material.wraps (material : Material) : WrapMode × WrapMode :=
  (material.wrapS, material.wrapT)

namespace TextureTable

/-! ### The tile that a texture keeps -/

variable (table : TextureTable) (data : Bytes) (position index size i : Nat) (c : Command)

/-- The last tile applied to a texture; none without the texture. -/
def tileOf? (i : Nat) : Option Tile :=
  table.textures[i]?.bind Texture.tile

theorem tileOf?_modify {f : Texture → Texture} (hf : ∀ t, (f t).tile = t.tile) :
    (table.modify index f).tileOf? i = table.tileOf? i := by
  simp only [tileOf?, modify, Array.getElem?_modify]
  split
  · cases table.textures[i]? with
    | none => rfl
    | some t => exact hf t
  · rfl

theorem tileOf?_setTile (tile : Tile) : (table.setTile index tile).tileOf? index =
    if index < table.textures.size then some tile else none := by
  simp only [tileOf?, setTile, modify, Array.getElem?_modify, if_true]
  split
  · rename_i hlt
    rw [Array.getElem?_eq_getElem hlt]
    rfl
  · rename_i hge
    rw [Array.getElem?_eq_none (Nat.le_of_not_lt hge)]
    rfl

theorem present_select : (table.select position c).2.1 <
    (table.select position c).1.textures.size := by
  rw [select_eq]
  split
  · rename_i i hfind
    rw [find?_eq] at hfind
    exact (Array.findIdx?_eq_some_iff_getElem.mp hfind).1
  · simp [grow]

theorem present_bind (tile : Option Tile) (sScale tScale : Float32) :
    (table.select position c).2.1 <
      (table.bind position c tile sScale tScale).1.textures.size := by
  have hpresent := table.present_select position c
  rwa [bind_eq, size_modify]

theorem tileOf?_select :
    (table.select position c).1.tileOf? i = table.tileOf? i := by
  rw [select_eq]
  split
  · rfl
  · simp only [tileOf?, grow, Array.getElem?_push]
    split
    · rename_i hi
      rw [hi, Array.getElem?_eq_none (Nat.le_refl _)]
      rfl
    · rfl

/-- A binding applies the tile that it is given to what it binds, also if it has just added it. -/
theorem tileOf?_bind (tile : Option Tile) (sScale tScale : Float32) :
    (table.bind position c tile sScale tScale).1.tileOf? (table.select position c).2.1 =
      tile.or (table.tileOf? (table.select position c).2.1) := by
  have hpresent := table.present_select position c
  have hkept := table.tileOf?_select position (table.select position c).2.1 c
  rw [← hkept]
  simp only [bind_eq, tileOf?, modify, Array.getElem?_modify, if_true,
    Array.getElem?_eq_getElem hpresent]
  cases tile <;> rfl

theorem tileOf?_loadPalette :
    (table.loadPalette data position index size).1.tileOf? i = table.tileOf? i := by
  rw [loadPalette_eq]
  split
  · exact table.tileOf?_modify index i fun _ => rfl
  · rfl

theorem tileOf?_paint (codec : Codec) (t : Texture) :
    (table.paint codec data index t).1.tileOf? i = table.tileOf? i := by
  unfold paint
  split
  · rfl
  · dsimp only
    split
    · exact tileOf?_modify _ index i fun _ => rfl
    · rfl

theorem tileOf?_materialFor (codec : Codec) (wrapS wrapT : WrapMode) :
    (table.materialFor codec data index wrapS wrapT).1.tileOf? i = table.tileOf? i := by
  unfold materialFor addMaterial
  split
  · rfl
  · rfl
  · exact table.tileOf?_paint data index i codec _

end TextureTable

namespace Decoder

open TextureTable

variable {m : Model} {codec : Codec} {d d' : Decoder} {p q i : Nat} {c : Command} {tile : Tile}

/-! ### One command -/

theorem Effect.eq_setTile (h : Effect m codec d p c d') (ho : c.opcode? = some .setTile) :
    d' = d.setTile c.tile := by
  cases h with
  | setTile => rfl
  | idle h => simp [ho] at h
  | selectNull h | bindTexture h | loadPalette h | setScale h | loadVertices h => simp [ho] at h
  | stray hf | draw hf => rcases c.faces_ne_nil_iff.mp hf with h | h <;> simp [ho] at h

/-- A tile is applied where a texture is bound and by a tile record. All other commands leave the
wrap modes and the tiles of the textures alone. -/
theorem Effect.applied_cases (h : Effect m codec d p c d') (hc : m.commands[p]? = some c) :
    (d' = d.bindTexture m p c ∧ m.appliedTile? p = upcomingTile? m p) ∨
    (d' = d.setTile c.tile ∧ m.appliedTile? p = some c.tile) ∨
    (m.appliedTile? p = none ∧ d'.state.wraps = d.state.wraps ∧
      ∀ i, d'.table.tileOf? i = d.table.tileOf? i) := by
  by_cases hbind : c.opcode? = some .bindTexture
  · exact .inl ⟨h.eq_bindTexture hbind, Model.appliedTile?_of_bind hc hbind⟩
  by_cases htile : c.opcode? = some .setTile
  · exact .inr (.inl ⟨h.eq_setTile htile, Model.appliedTile?_of_tile hc htile⟩)
  refine .inr (.inr ⟨Model.appliedTile?_of_other hc hbind htile, ?_⟩)
  cases h with
  | bindTexture ho => exact absurd ho hbind
  | setTile ho => exact absurd ho htile
  | idle | selectNull | setScale | stray => exact ⟨rfl, fun _ => rfl⟩
  | loadPalette =>
    refine ⟨?_, fun i => ?_⟩
    · rw [loadPalette_state]
      split <;> rfl
    · rw [loadPalette_table, tileOf?_loadPalette]
  | loadVertices =>
    refine ⟨by rw [loadVertices_state]; rfl, fun i => ?_⟩
    rw [loadVertices_table]
    cases d.state.boundary? with
    | none => rfl
    | some boundary =>
      cases boundary with
      | null => rfl
      | texture => exact d.table.tileOf?_materialFor _ _ i codec _ _
  | draw => exact ⟨by rw [foldl_drawTriangle_state], fun i => by rw [foldl_drawTriangle_table]⟩

/-- A command that applies a tile sets the wrap modes by it, and no other changes them. -/
theorem Effect.wraps_eq (h : Effect m codec d p c d') (hc : m.commands[p]? = some c) :
    d'.state.wraps = (m.appliedTile? p).elim d.state.wraps Tile.wraps := by
  rcases h.applied_cases hc with ⟨rfl, happlied⟩ | ⟨rfl, happlied⟩ | ⟨happlied, hwraps, -⟩
  · rw [happlied, Decoder.bindTexture_eq, bindWith_state]
    cases upcomingTile? m p <;> rfl
  · rw [happlied]
    rfl
  · rw [happlied, hwraps, Option.elim_none]

/-- A command applies its tile to the texture that is bound when it has been carried out, if that
is there. -/
theorem Effect.tileOf?_eq (h : Effect m codec d p c d') (hc : m.commands[p]? = some c) (i : Nat) :
    d'.table.tileOf? i =
      if i = d'.state.texture ∧ i < d'.table.textures.size then
        (m.appliedTile? p).or (d.table.tileOf? i)
      else d.table.tileOf? i := by
  have helse (hi : i ≠ d'.state.texture) : d'.table.tileOf? i = d.table.tileOf? i := by
    rw [tileOf?, tileOf?, h.getElem?_textures hi]
  rcases h.applied_cases hc with ⟨rfl, happlied⟩ | ⟨rfl, happlied⟩ | ⟨happlied, -, htiles⟩
  · by_cases hi : i = (d.bindTexture m p c).state.texture
    · subst hi
      rw [if_pos ⟨rfl, d.table.present_bind p c _ _ _⟩, happlied]
      exact d.table.tileOf?_bind p c _ _ _
    · rw [if_neg fun hc => hi hc.1, helse hi]
  · by_cases hi : i = d.state.texture
    · subst hi
      rw [show (d.setTile c.tile).table = d.table.setTile d.state.texture c.tile from rfl,
        tileOf?_setTile, TextureTable.setTile, size_modify, happlied, Option.some_or]
      split
      · rw [if_pos ⟨rfl, ‹_›⟩]
      · rw [if_neg fun hc => absurd hc.2 ‹_›, tileOf?,
          Array.getElem?_eq_none (Nat.le_of_not_lt ‹_›), Option.bind_none]
    · rw [if_neg fun hc => hi hc.1, helse hi]
  · rw [happlied, htiles, Option.none_or, ite_self]

/-! ### Whole runs -/

/-- What no command in between changes is as it was. -/
theorem before_eq_of_steps {α : Type} {f : Decoder → α} (hqp : q ≤ p)
    (h : ∀ r, q ≤ r → r < p → f (before m codec (r + 1)) = f (before m codec r)) :
    f (before m codec p) = f (before m codec q) := by
  induction p, hqp using Nat.le_induction with
  | base => rfl
  | succ p hqp ih =>
    rw [h p hqp (Nat.lt_succ_self p)]
    exact ih fun r hr hrp => h r hr (Nat.lt_succ_of_lt hrp)

theorem wraps_before_succ (m : Model) (codec : Codec) (p : Nat) :
    (before m codec (p + 1)).state.wraps =
      (m.appliedTile? p).elim (before m codec p).state.wraps Tile.wraps := by
  cases hc : m.commands[p]? with
  | none => rw [before_succ_of_none hc, Model.appliedTile?_of_none hc, Option.elim_none]
  | some c => exact (effect_before hc).wraps_eq hc

theorem wraps_before_of_last (h : m.LastTile p q tile) :
    (before m codec p).state.wraps = tile.wraps := by
  have hset : (before m codec (q + 1)).state.wraps = tile.wraps := by
    rw [wraps_before_succ, h.applied, Option.elim_some]
  rw [← hset]
  refine before_eq_of_steps (f := fun d => d.state.wraps) h.earlier fun r hr hrp => ?_
  rw [wraps_before_succ, h.last r hr hrp, Option.elim_none]

theorem wraps_before_of_none (h : ∀ q < p, m.appliedTile? q = none) :
    (before m codec p).state.wraps = (.wrap, .wrap) := by
  refine before_eq_of_steps (f := fun d => d.state.wraps) (Nat.zero_le p) fun r _ hrp => ?_
  rw [wraps_before_succ, h r hrp, Option.elim_none]

/-- The command at `q` applies a tile to the `i`-th texture. -/
structure AppliesTo (m : Model) (codec : Codec) (q i : Nat) : Prop where
  applies : (m.appliedTile? q).isSome
  bound : i = (before m codec (q + 1)).state.texture
  present : i < (before m codec (q + 1)).table.textures.size

theorem tileOf?_before_of_not_appliesTo (h : ¬ AppliesTo m codec p i) :
    (before m codec (p + 1)).table.tileOf? i = (before m codec p).table.tileOf? i := by
  cases hc : m.commands[p]? with
  | none => rw [before_succ_of_none hc]
  | some c =>
    rw [(effect_before hc).tileOf?_eq hc]
    split
    · rename_i hto
      have hnone : m.appliedTile? p = none := by
        by_contra hsome
        exact h ⟨Option.isSome_iff_ne_none.mpr hsome, hto.1, hto.2⟩
      rw [hnone, Option.none_or]
    · rfl

theorem tileOf?_before_of_appliesTo (h : AppliesTo m codec p i) :
    (before m codec (p + 1)).table.tileOf? i = m.appliedTile? p := by
  have happlies := h.applies
  obtain ⟨tile, htile⟩ := Option.isSome_iff_exists.mp h.applies
  cases hc : m.commands[p]? with
  | none => simp [Model.appliedTile?_of_none hc] at happlies
  | some c =>
    rw [(effect_before hc).tileOf?_eq hc, if_pos ⟨h.bound, h.present⟩, htile, Option.some_or]

/-- A texture keeps the tile that was applied to it last. -/
theorem tileOf?_before_of_last (hqp : q < p) (h : AppliesTo m codec q i)
    (hlast : ∀ r, q < r → r < p → ¬ AppliesTo m codec r i) :
    (before m codec p).table.tileOf? i = m.appliedTile? q := by
  rw [← tileOf?_before_of_appliesTo h]
  exact before_eq_of_steps (f := fun d => d.table.tileOf? i) hqp fun r hr hrp =>
    tileOf?_before_of_not_appliesTo (hlast r hr hrp)

theorem tileOf?_before_of_none (huntiled : ∀ t ∈ m.textures.toList, t.tile = none)
    (h : ∀ q < p, ¬ AppliesTo m codec q i) : (before m codec p).table.tileOf? i = none := by
  have hstart : (start m).table.tileOf? i = none := by
    rw [tileOf?, start, Option.bind_eq_none_iff]
    intro t ht
    exact huntiled t (Array.mem_toList_iff.mpr (Array.mem_of_getElem? ht))
  rw [← hstart]
  exact before_eq_of_steps (f := fun d => d.table.tileOf? i) (Nat.zero_le p) fun r _ hrp =>
    tileOf?_before_of_not_appliesTo (h r hrp)

/-- The wrap modes in force are those of a texture's own tile if the last tile of all was applied
to it, and if there was none. -/
theorem wraps_before_eq_own (huntiled : ∀ t ∈ m.textures.toList, t.tile = none) {t : Texture}
    (ht : (before m codec p).table.textures[i]? = some t)
    (hown : ∀ q tile, m.LastTile p q tile → AppliesTo m codec q i) :
    (before m codec p).state.wraps = t.wraps := by
  have htile : (before m codec p).table.tileOf? i = t.tile := by rw [tileOf?, ht, Option.bind_some]
  rw [Texture.wraps, ← htile]
  rcases m.exists_lastTile_or_none p with ⟨q, tile, hlast⟩ | hnone
  · -- no later command applies a tile at all, so none applies one to this texture
    have hkept := tileOf?_before_of_last hlast.earlier (hown q tile hlast) fun r hr hrp hto => by
      simpa [hlast.last r hr hrp] using hto.applies
    rw [wraps_before_of_last hlast, hkept, hlast.applied, Option.elim_some]
  · rw [wraps_before_of_none hnone, tileOf?_before_of_none huntiled fun q hq hto => by
      simpa [hnone q hq] using hto.applies, Option.elim_none]

/-- A tile applied after the last binding is applied to the texture that is still bound. -/
theorem appliesTo_of_no_bind (hqp : q < p) (h : (m.appliedTile? q).isSome)
    (hno : ∀ r, q < r → r < p → m.bind? r = none) (hbound : (before m codec p).state.texture = i)
    (hpresent : i < (before m codec p).table.textures.size) : AppliesTo m codec q i := by
  have hsteps (r : Nat) (hr : q + 1 ≤ r) (hrp : r < p) :
      (before m codec (r + 1)).state.texture = (before m codec r).state.texture ∧
      (before m codec (r + 1)).table.textures.size = (before m codec r).table.textures.size := by
    cases hc : m.commands[r]? with
    | none =>
      rw [before_succ_of_none hc]
      exact ⟨rfl, rfl⟩
    | some c =>
      have ho : c.opcode? ≠ some .bindTexture := fun ho => by
        simpa [Model.bind?, hc, ho] using hno r hr hrp
      exact ⟨by rw [(effect_before hc).texture_eq, if_neg ho],
        (effect_before hc).size_textures_eq ho⟩
  have htexture := before_eq_of_steps (f := fun d => d.state.texture) hqp
    fun r hr hrp => (hsteps r hr hrp).1
  have hsize := before_eq_of_steps (f := fun d => d.table.textures.size) hqp
    fun r hr hrp => (hsteps r hr hrp).2
  exact ⟨h, by rw [← hbound, htexture], by rwa [← hsize]⟩

/-! ### Materials -/

/-- The load at `p` makes the material of the `i`-th texture: there was none before. -/
structure Makes (m : Model) (codec : Codec) (p i : Nat) : Prop where
  load : (m.load? p).isSome
  new : (before m codec p).table.materialOf? i = none
  made : ((before m codec (p + 1)).table.materialOf? i).isSome

/-- It is the first load that takes the texture. -/
theorem Makes.isFirst (h : Makes m codec p i) : (Use.mk p i).IsFirst m codec := by
  obtain ⟨uses, huses⟩ := exists_catalogued m codec p
  obtain ⟨uses', huses'⟩ := exists_catalogued m codec (p + 1)
  have hnew : ∀ u ∈ uses, u.texture ≠ i := by
    have hnone := h.new
    rw [huses.materialOf?_eq, Option.map_eq_none_iff, List.findIdx?_eq_none_iff] at hnone
    simpa using hnone
  obtain ⟨u, hu, htexture⟩ : ∃ u ∈ uses', u.texture = i := by
    have hsome := h.made
    rw [huses'.materialOf?_eq, Option.isSome_map, List.findIdx?_isSome] at hsome
    simpa using hsome
  obtain ⟨hposition, hfirst⟩ := (huses'.firsts.mem_iff u).mp hu
  have hp : u.position = p := by
    by_contra hne
    exact hnew u ((huses.firsts.mem_iff u).mpr ⟨by omega, hfirst⟩) htexture
  rwa [← hp, ← htexture]

/-- How the material that is made at `p` wraps the `i`-th texture, which is `t` then: as the last
tile says. This is as the texture's own tile says if the last one was applied to it, which is so if
nothing has been bound since, and if there was none. -/
structure WrapsAsLastTile (m : Model) (codec : Codec) (p i : Nat) (t : Texture)
    (material : Material) : Prop where
  latest : ∀ q tile, m.LastTile p q tile → material.wraps = tile.wraps
  unset : (∀ q < p, m.appliedTile? q = none) → material.wraps = (.wrap, .wrap)
  own : (∀ q tile, m.LastTile p q tile → AppliesTo m codec q i) → material.wraps = t.wraps
  recent : ∀ q tile, m.LastTile p q tile → (∀ r, q < r → r < p → m.bind? r = none) →
    AppliesTo m codec q i
  recorded : ∀ q, q < p → AppliesTo m codec q i →
    (∀ r, q < r → r < p → ¬ AppliesTo m codec r i) → t.tile = m.appliedTile? q
  untouched : (∀ q < p, ¬ AppliesTo m codec q i) → t.tile = none

/-- In a run over a model whose textures come without tiles, each material that is made wraps its
texture as the last tile says. -/
theorem materials_wrap_as_last_tile (m : Model) (codec : Codec) (limit : Nat) (r : Decoder)
    (huntiled : ∀ t ∈ m.textures.toList, t.tile = none)
    (hrun : (run m codec limit (start m)).result = .ok r) (p i : Nat) (h : Makes m codec p i) :
    ∃ t material, (before m codec p).table.textures[i]? = some t ∧
      (before m codec (p + 1)).table.materials.toList =
        (before m codec p).table.materials.toList ++ [material] ∧
      material ∈ r.table.materials.toList ∧ material.texture = some i ∧
      WrapsAsLastTile m codec p i t material := by
  obtain ⟨rfl, -⟩ := run_eq_ok hrun
  obtain ⟨uses, huses⟩ := exists_catalogued m codec m.commands.size
  have hfirst := h.isFirst
  obtain ⟨t, ht⟩ := hfirst.1.exists_texture
  have htile : (before m codec p).table.tileOf? i = t.tile := by rw [tileOf?, ht, Option.bind_some]
  have hmade : ((Use.mk p i).material m codec).wraps = (before m codec p).state.wraps := rfl
  have hlisted : (Use.mk p i).material m codec ∈
      ((before m codec m.commands.size).finish m).table.materials.toList := by
    rw [finish_table, huses.materials_eq]
    have hp := Model.lt_size_of_load h.load
    exact List.mem_cons_of_mem _ (List.mem_map_of_mem ((huses.firsts.mem_iff _).mpr ⟨hp, hfirst⟩))
  refine ⟨t, (Use.mk p i).material m codec, ht, (hfirst.1.made h.new).1, hlisted, rfl, ?_⟩
  exact {
    latest := fun q tile hlast => hmade.trans (wraps_before_of_last hlast)
    unset := fun hnone => hmade.trans (wraps_before_of_none hnone)
    own := fun hown => hmade.trans (wraps_before_eq_own huntiled ht hown)
    recent := fun q tile hlast hno =>
      appliesTo_of_no_bind hlast.earlier (by simp [hlast.applied]) hno hfirst.1.bound
        hfirst.1.present
    recorded := fun q hqp hto hlast => htile ▸ tileOf?_before_of_last hqp hto hlast
    untouched := fun hno => htile ▸ tileOf?_before_of_none huntiled hno }

/-- A tile for the first texture, then a binding without a tile and a load. -/
def sampleClamped : Model where
  vertices := .replicate 3 {}
  textures := #[{ dataOffset := 0, format := .rgba16, width := 1, height := 1 },
    { dataOffset := 2, format := .rgba16, width := 1, height := 1 }]
  textureData := [255, 255, 255, 255]
  commands := #[.ofFields 253 0 0 0 0, .ofFields 245 0x10 0 0 0x80200, .ofFields 253 0 0 0 2,
    .ofFields 4 0 12 0 0]

theorem makes_sampleClamped : Makes sampleClamped .packed 3 1 :=
  ⟨by decide +kernel, by decide +kernel, by decide +kernel⟩

theorem materials_wrap_as_last_tile_clamped :
    (∀ t ∈ sampleClamped.textures.toList, t.tile = none) ∧ Makes sampleClamped .packed 3 1 ∧
    ∃ r, (run sampleClamped .packed 4 (start sampleClamped)).result = .ok r ∧
    ∃ t material, (before sampleClamped .packed 3).table.textures[1]? = some t ∧
      (before sampleClamped .packed 4).table.materials.toList =
        (before sampleClamped .packed 3).table.materials.toList ++ [material] ∧
      material ∈ r.table.materials.toList ∧ material.texture = some 1 ∧
      WrapsAsLastTile sampleClamped .packed 3 1 t material :=
  ⟨by decide, makes_sampleClamped, _, rfl,
    materials_wrap_as_last_tile sampleClamped .packed 4 _ (by decide) rfl 3 1 makes_sampleClamped⟩

/-- A texture need not be wrapped as its own tile says: this one has none and is clamped. -/
theorem not_wraps_as_own_tile_clamped :
    (∀ t ∈ sampleClamped.textures.toList, t.tile = none) ∧ Makes sampleClamped .packed 3 1 ∧
    ∃ r, (run sampleClamped .packed 4 (start sampleClamped)).result = .ok r ∧
    ∃ t material, (before sampleClamped .packed 3).table.textures[1]? = some t ∧ t.tile = none ∧
      r.table.materials[1]? = some material ∧ material.texture = some 1 ∧
      material.wraps = (.clamp, .clamp) ∧ material.wraps ≠ t.wraps := by
  have huntiled : (before sampleClamped .packed 3).table.textures[1]?.map Texture.tile =
      some none := by decide +kernel
  obtain ⟨t, ht, htile⟩ := Option.map_eq_some_iff.mp huntiled
  refine ⟨by decide, makes_sampleClamped, _, rfl, t, .forTexture 1 .clamp .clamp, ht, htile,
    by decide +kernel, rfl, rfl, ?_⟩
  rw [Texture.wraps, htile]
  decide

end Decoder

end DisplayList

import DisplayList.Proofs.Reachability
import DisplayList.Proofs.Segmentation

/-!
# What becomes of textures

A texture stays in its place. Commands apply tiles to it, set its ratios and load palettes,
and the codec gives an image to one that has none; what holds across each of these changes
holds between a texture and what is there in its place at any later time.
-/
namespace DisplayList

namespace Texture

/-- A relation between a texture and what later commands make of it. Setting the ratios is left
out, since only a command that binds a texture does that. -/
structure Persists (R : Texture → Texture → Prop) : Prop where
  refl : ∀ t, R t t
  trans : ∀ {t u v}, R t u → R u v → R t v
  applyTile : ∀ t tile, R t (t.applyTile tile)
  palette : ∀ t bytes, R t { t with palette := some bytes }
  image : ∀ t image, t.pixels = none → R t { t with pixels := some image }

/-- A relation that also holds when ratios are set. -/
def Scales (R : Texture → Texture → Prop) : Prop :=
  ∀ t sScale tScale, R t (t.rescale sScale tScale)

/-- What a texture has become: it starts where it did and has its dimensions, and its format is
the one it had as long as no tile has been applied. -/
structure Became (t u : Texture) : Prop where
  dataOffset_eq : u.dataOffset = t.dataOffset
  width_eq : u.width = t.width
  height_eq : u.height = t.height
  untiled : u.tile = none → t.tile = none ∧ u.format = t.format

theorem persists_became : Persists Became where
  refl t := ⟨rfl, rfl, rfl, fun h => ⟨h, rfl⟩⟩
  trans {t u v} h h' := by
    refine ⟨h'.dataOffset_eq.trans h.dataOffset_eq, h'.width_eq.trans h.width_eq,
      h'.height_eq.trans h.height_eq, fun hv => ?_⟩
    obtain ⟨hu, hformat⟩ := h'.untiled hv
    exact ⟨(h.untiled hu).1, hformat.trans (h.untiled hu).2⟩
  applyTile t tile := ⟨rfl, rfl, rfl, fun h => by simp [applyTile] at h⟩
  palette t bytes := ⟨rfl, rfl, rfl, fun h => ⟨h, rfl⟩⟩
  image t image _ := ⟨rfl, rfl, rfl, fun h => ⟨h, rfl⟩⟩

theorem scales_became : Scales Became :=
  fun _ _ _ => ⟨rfl, rfl, rfl, fun h => ⟨h, rfl⟩⟩

end Texture

namespace TextureTable

open Texture

/-- Each texture of one table is related to the one in its place in another. -/
def Revised (R : Texture → Texture → Prop) (before after : TextureTable) : Prop :=
  ∀ (i : Nat) t, before.textures[i]? = some t → ∃ u, after.textures[i]? = some u ∧ R t u

variable {R : Texture → Texture → Prop}

theorem revised_of_eq (hR : Persists R) {a b : TextureTable} (h : b.textures = a.textures) :
    Revised R a b :=
  fun _ t ht => ⟨t, h ▸ ht, hR.refl t⟩

theorem revised_refl (hR : Persists R) (table : TextureTable) : Revised R table table :=
  revised_of_eq hR rfl

theorem Revised.trans (hR : Persists R) {a b c : TextureTable} (h : Revised R a b)
    (h' : Revised R b c) : Revised R a c := by
  intro i t ht
  obtain ⟨u, hu, htu⟩ := h i t ht
  obtain ⟨v, hv, huv⟩ := h' i u hu
  exact ⟨v, hv, hR.trans htu huv⟩

variable (table : TextureTable) (data : Bytes) (position index size : Nat) (c : Command)

theorem revised_modify (hR : Persists R) {f : Texture → Texture}
    (hf : ∀ t, table.textures[index]? = some t → R t (f t)) :
    Revised R table (table.modify index f) := by
  intro i t ht
  by_cases hi : index = i
  · subst hi
    exact ⟨f t, by simp [modify, Array.getElem?_modify, ht], hf t ht⟩
  · exact ⟨t, by simp [modify, Array.getElem?_modify, hi, ht], hR.refl t⟩

theorem revised_select (hR : Persists R) : Revised R table (table.select position c).1 := by
  rw [select_eq]
  split
  · exact revised_refl hR table
  · intro i t ht
    have hlt := (Array.getElem?_eq_some_iff.mp ht).1
    exact ⟨t, by simp only [grow, Array.getElem?_push]; rw [if_neg (by omega), ht], hR.refl t⟩

theorem revised_bind (hR : Persists R) (hscale : Scales R) (tile : Option Tile)
    (sScale tScale : Float32) :
    Revised R table (table.bind position c tile sScale tScale).1 := by
  refine (revised_select table position c hR).trans hR (revised_modify _ _ hR fun t _ => ?_)
  cases tile with
  | none => exact hscale t sScale tScale
  | some tile => exact hR.trans (hR.applyTile t tile) (hscale _ sScale tScale)

theorem revised_setTile (hR : Persists R) (tile : Tile) :
    Revised R table (table.setTile index tile) :=
  revised_modify table index hR fun t _ => hR.applyTile t tile

theorem revised_loadPalette (hR : Persists R) :
    Revised R table (table.loadPalette data position index size).1 := by
  rw [loadPalette_eq]
  split
  · exact revised_modify table index hR fun t _ => hR.palette t _
  · exact revised_refl hR table

theorem revised_paint (hR : Persists R) (codec : Codec) {t : Texture}
    (ht : table.textures[index]? = some t) :
    Revised R table (table.paint codec data index t).1 := by
  unfold paint
  split
  · exact revised_refl hR table
  · rename_i hpixels
    dsimp only
    split
    · refine .trans hR (revised_of_eq hR rfl) (revised_modify _ index hR fun u hu => ?_)
      obtain rfl : t = u := Option.some.inj (ht.symm.trans hu)
      exact hR.image t _ (by simpa using hpixels)
    · exact revised_of_eq hR rfl

theorem revised_materialFor (hR : Persists R) (codec : Codec) (wrapS wrapT : WrapMode) :
    Revised R table (table.materialFor codec data index wrapS wrapT).1 := by
  cases ht : table.textures[index]? with
  | none =>
    rw [materialFor_of_none codec wrapS wrapT ht]
    exact revised_refl hR table
  | some t =>
    cases hm : table.materialOf? index with
    | some material =>
      rw [materialFor_of_some codec wrapS wrapT ht hm]
      exact revised_refl hR table
    | none =>
      rw [materialFor_of_new codec wrapS wrapT ht hm]
      exact revised_paint table data index hR codec ht

end TextureTable

namespace Decoder

open Texture TextureTable

variable {m : Model} {codec : Codec} {d d' : Decoder} {n p q position : Nat} {c : Command}
  {R : Texture → Texture → Prop}

/-- A command revises textures, and sets the ratios of one only if it binds it. -/
theorem Effect.revised (h : Effect m codec d position c d') (hR : Persists R)
    (hscale : c.opcode? = some .bindTexture → Scales R) : Revised R d.table d'.table := by
  cases h with
  | idle => exact revised_refl hR _
  | selectNull => exact revised_refl hR _
  | bindTexture ho =>
    simp only [Decoder.bindTexture_eq, bindWith_table]
    exact revised_bind _ _ _ hR (hscale ho) _ _ _
  | setTile => exact revised_setTile _ _ hR _
  | loadPalette =>
    rw [loadPalette_table]
    exact revised_loadPalette _ _ _ _ _ hR
  | setScale => exact revised_refl hR _
  | loadVertices =>
    rw [loadVertices_table]
    cases d.state.boundary? with
    | none => exact revised_refl hR _
    | some boundary =>
      cases boundary with
      | null => exact revised_refl hR _
      | texture => exact revised_materialFor _ _ _ hR codec _ _
  | stray => exact revised_refl hR _
  | draw =>
    rw [foldl_drawTriangle_table]
    exact revised_refl hR _

/-- Every texture of the model stays in its place in every reachable decoder. -/
theorem Reached.revised (h : Reached m codec n d) (hR : Persists R) (hscale : Scales R) :
    Revised R (Decoder.start m).table d.table :=
  h.induction (P := fun d => Revised R (Decoder.start m).table d.table) (revised_refl hR _)
    fun _ _ _ _ hd heffect => hd.trans hR (heffect.revised hR fun _ => hscale)

/-- Between two positions of a run textures are revised; their ratios are only set where a
texture is bound. -/
theorem revised_before (m : Model) (codec : Codec) (hR : Persists R) (hpq : p ≤ q)
    (hscale : ∀ r, p ≤ r → r < q → (m.bind? r).isSome → Scales R) :
    Revised R (before m codec p).table (before m codec q).table := by
  induction q, hpq using Nat.le_induction with
  | base => exact revised_refl hR _
  | succ q hq ih =>
    have hrevised := ih fun r hpr hrq => hscale r hpr (by omega)
    cases hc : m.commands[q]? with
    | none => rwa [before_succ_of_none hc]
    | some c =>
      refine hrevised.trans hR ((effect_before hc).revised hR fun ho => ?_)
      exact hscale q hq (by omega) (by simp [Model.bind?, hc, ho])

end Decoder

end DisplayList

import DisplayList.Proofs.UnboundTextures

/-!
# The index of materials

`TextureTable.materialOf?` looks for the material of a texture among all materials. A table can
instead keep an index, with an entry for each texture that holds its material once there is one.
Call by call, such a table answers as the table without an index does, so over a whole run its
entries are what the search finds.
-/
namespace DisplayList

/-- A table with an entry for each texture: the material made for it, once there is one. -/
structure IndexedTable where
  table : TextureTable
  made : Array (Option Nat)
  deriving DecidableEq, Repr

/-- What a run asks of a table. -/
inductive TableCall
  | bind (position : Nat) (c : Command) (tile : Option Tile) (sScale tScale : Float32)
  | setTile (index : Nat) (tile : Tile)
  | loadPalette (data : Bytes) (position index size : Nat)
  | materialFor (codec : Codec) (data : Bytes) (index : Nat) (wrapS wrapT : WrapMode)

/-- Carries out calls one after the other and lists the answers. -/
def TableCall.answers {σ : Type} (perform : σ → TableCall → σ × Option Nat × Journal) :
    σ → List TableCall → σ × List (Option Nat × Journal)
  | s, [] => (s, [])
  | s, call :: rest =>
    let (s, answer) := perform s call
    let (s, later) := answers perform s rest
    (s, answer :: later)

theorem TableCall.answers_append {σ : Type} (perform : σ → TableCall → σ × Option Nat × Journal)
    (s : σ) (calls more : List TableCall) : (answers perform s (calls ++ more)).1 =
      (answers perform (answers perform s calls).1 more).1 := by
  induction calls generalizing s with
  | nil => rfl
  | cons call calls ih => exact ih (perform s call).1

namespace TextureTable

/-- Carries out a call. With the table come the place that is answered, if there is one, and what is
recorded. -/
def perform (table : TextureTable) : TableCall → TextureTable × Option Nat × Journal
  | .bind position c tile sScale tScale =>
    let (table, index, journal) := table.bind position c tile sScale tScale
    (table, some index, journal)
  | .setTile index tile => (table.setTile index tile, none, [])
  | .loadPalette data position index size =>
    let (table, journal) := table.loadPalette data position index size
    (table, none, journal)
  | .materialFor codec data index wrapS wrapT => table.materialFor codec data index wrapS wrapT

end TextureTable

namespace IndexedTable

/-- No texture has a material yet. -/
def start (textures : Array Texture) : IndexedTable where
  table := { textures }
  made := .replicate textures.size none

/-- Binds a texture. One that is added has no material. -/
def bind (t : IndexedTable) (position : Nat) (c : Command) (tile : Option Tile)
    (sScale tScale : Float32) : IndexedTable × Nat × Journal :=
  let made := if (t.table.find? c.address).isSome then t.made else t.made.push none
  let (table, index, journal) := t.table.bind position c tile sScale tScale
  (⟨table, made⟩, index, journal)

/-- The material of a texture by its entry, made with these wrap modes if there is none yet. -/
def materialFor (t : IndexedTable) (codec : Codec) (data : Bytes) (index : Nat)
    (wrapS wrapT : WrapMode) : IndexedTable × Option Nat × Journal :=
  match t.made[index]?, t.table.textures[index]? with
  | some (some material), _ => (t, some material, [])
  | some none, some texture =>
    let (table, material, journal) :=
      t.table.addMaterial codec data index texture wrapS wrapT
    (⟨table, t.made.setIfInBounds index (some material)⟩, some material, journal)
  | _, _ => (t, none, [])

/-- Carries out a call. -/
def perform (t : IndexedTable) : TableCall → IndexedTable × Option Nat × Journal
  | .bind position c tile sScale tScale =>
    let (t, index, journal) := t.bind position c tile sScale tScale
    (t, some index, journal)
  | .setTile index tile => ({ t with table := t.table.setTile index tile }, none, [])
  | .loadPalette data position index size =>
    let (table, journal) := t.table.loadPalette data position index size
    ({ t with table }, none, journal)
  | .materialFor codec data index wrapS wrapT => t.materialFor codec data index wrapS wrapT

/-- Each texture has an entry, which is what a search among the materials finds, and materials are
made for textures that are there. -/
structure Accurate (t : IndexedTable) : Prop where
  size_eq : t.made.size = t.table.textures.size
  entry : ∀ i < t.table.textures.size, t.made[i]? = some (t.table.materialOf? i)
  absent : ∀ i, t.table.textures.size ≤ i → t.table.materialOf? i = none

namespace Accurate

open TextureTable

variable {t : IndexedTable} {table : TextureTable}

theorem materialOf?_congr {a b : TextureTable} (h : b.materials = a.materials) (i : Nat) :
    b.materialOf? i = a.materialOf? i := by
  rw [materialOf?, h, materialOf?]

theorem materialOf?_push {a b : TextureTable} {index : Nat} {wrapS wrapT : WrapMode}
    (h : b.materials = a.materials.push (.forTexture index wrapS wrapT)) (i : Nat) :
    b.materialOf? i =
      (a.materialOf? i).or (if index = i then some a.materials.size else none) := by
  rw [materialOf?, h, Array.findIdx?_push, ← materialOf?]
  simp [Material.forTexture]

theorem start (textures : Array Texture) : (IndexedTable.start textures).Accurate where
  size_eq := Array.size_replicate
  entry i hi := by
    have hlt : i < textures.size := hi
    simp [IndexedTable.start, hlt, materialOf?, Material.null]
  absent i _ := by simp [IndexedTable.start, materialOf?, Material.null]

/-- The entries stay right while no material is made and no texture added. -/
theorem keep (h : t.Accurate) (hmaterials : table.materials = t.table.materials)
    (hsize : table.textures.size = t.table.textures.size) : Accurate ⟨table, t.made⟩ where
  size_eq := h.size_eq.trans hsize.symm
  entry i hi := by
    rw [materialOf?_congr hmaterials]
    exact h.entry i (hsize ▸ hi)
  absent i hi := by
    rw [materialOf?_congr hmaterials]
    exact h.absent i (hsize ▸ hi)

/-- A texture that is added has no material. -/
theorem grow (h : t.Accurate) (hmaterials : table.materials = t.table.materials)
    (hsize : table.textures.size = t.table.textures.size + 1) :
    Accurate ⟨table, t.made.push none⟩ where
  size_eq := by rw [Array.size_push, h.size_eq, hsize]
  entry i hi := by
    have hle : i < t.table.textures.size + 1 := hsize ▸ hi
    rw [materialOf?_congr hmaterials, Array.getElem?_push, h.size_eq]
    split
    · rw [h.absent i (by omega)]
    · exact h.entry i (by omega)
  absent i hi := by
    have hge : t.table.textures.size + 1 ≤ i := hsize ▸ hi
    rw [materialOf?_congr hmaterials]
    exact h.absent i (by omega)

/-- A material that is made is entered for its texture. -/
theorem add (h : t.Accurate) {index : Nat} {wrapS wrapT : WrapMode}
    (hindex : index < t.table.textures.size) (hnew : t.table.materialOf? index = none)
    (hmaterials : table.materials = t.table.materials.push (.forTexture index wrapS wrapT))
    (hsize : table.textures.size = t.table.textures.size) :
    Accurate ⟨table, t.made.setIfInBounds index (some t.table.materials.size)⟩ where
  size_eq := by rw [Array.size_setIfInBounds, h.size_eq, hsize]
  entry i hi := by
    have hlt : i < t.table.textures.size := hsize ▸ hi
    rw [materialOf?_push hmaterials, Array.getElem?_setIfInBounds, h.size_eq, h.entry i hlt]
    split
    · rename_i heq
      subst heq
      rw [hnew]
      rfl
    · simp
  absent i hi := by
    have hge : t.table.textures.size ≤ i := hsize ▸ hi
    rw [materialOf?_push hmaterials, h.absent i hge, if_neg (by omega)]
    rfl

variable (h : t.Accurate)

include h

theorem bind (position : Nat) (c : Command) (tile : Option Tile) (sScale tScale : Float32) :
    (t.bind position c tile sScale tScale).1.Accurate := by
  have hmaterials := (t.table.keeps_bind position c tile sScale tScale).materials_eq
  unfold IndexedTable.bind
  cases hfind : t.table.find? c.address with
  | some index => exact h.keep hmaterials (size_bind_of_some _ _ _ hfind tile sScale tScale)
  | none => exact h.grow hmaterials (bind_of_none _ _ _ hfind tile sScale tScale).1

/-- The entry of a texture says what the search for its material finds. -/
theorem materialFor (codec : Codec) (data : Bytes) (index : Nat) (wrapS wrapT : WrapMode) :
    ((t.materialFor codec data index wrapS wrapT).1.table,
        (t.materialFor codec data index wrapS wrapT).2) =
      t.table.materialFor codec data index wrapS wrapT ∧
    (t.materialFor codec data index wrapS wrapT).1.Accurate := by
  unfold IndexedTable.materialFor TextureTable.materialFor
  cases ht : t.table.textures[index]? with
  | none =>
    have hge : t.made.size ≤ index := h.size_eq ▸ Array.getElem?_eq_none_iff.mp ht
    rw [Array.getElem?_eq_none hge]
    exact ⟨rfl, h⟩
  | some texture =>
    have hlt := (Array.getElem?_eq_some_iff.mp ht).1
    rw [h.entry index hlt]
    cases hm : t.table.materialOf? index with
    | some material => exact ⟨rfl, h⟩
    | none =>
      refine ⟨rfl, ?_⟩
      have hmaterials : (t.table.addMaterial codec data index texture wrapS wrapT).1.materials =
          t.table.materials.push (.forTexture index wrapS wrapT) := by
        simp [addMaterial, paint_materials]
      have hplace : (t.table.addMaterial codec data index texture wrapS wrapT).2.1 =
          t.table.materials.size := by
        simp [addMaterial, paint_materials]
      show Accurate ⟨(t.table.addMaterial codec data index texture wrapS wrapT).1,
        t.made.setIfInBounds index
          (some (t.table.addMaterial codec data index texture wrapS wrapT).2.1)⟩
      rw [hplace]
      exact h.add hlt hm hmaterials (size_paint t.table data index codec texture)

/-- Call by call, both tables answer alike. -/
theorem perform (call : TableCall) :
    ((t.perform call).1.table, (t.perform call).2) = t.table.perform call ∧
      (t.perform call).1.Accurate := by
  cases call with
  | bind position c tile sScale tScale => exact ⟨rfl, h.bind position c tile sScale tScale⟩
  | setTile index tile =>
    exact ⟨rfl, h.keep (t.table.keeps_setTile index tile).materials_eq (size_modify _ _ _)⟩
  | loadPalette data position index size =>
    exact ⟨rfl, h.keep (t.table.keeps_loadPalette data position index size).materials_eq
      (size_loadPalette ..)⟩
  | materialFor codec data index wrapS wrapT => exact h.materialFor codec data index wrapS wrapT

/-- Whatever is called, both tables give the same answers and stay the same. -/
theorem answers (calls : List TableCall) :
    ((TableCall.answers IndexedTable.perform t calls).1.table,
        (TableCall.answers IndexedTable.perform t calls).2) =
      TableCall.answers TextureTable.perform t.table calls ∧
    (TableCall.answers IndexedTable.perform t calls).1.Accurate := by
  induction calls generalizing t with
  | nil => exact ⟨rfl, h⟩
  | cons call rest ih =>
    obtain ⟨hcall, hnext⟩ := h.perform call
    obtain ⟨hrest, hlast⟩ := ih hnext
    refine ⟨?_, hlast⟩
    rw [TableCall.answers, TableCall.answers, ← hcall]
    dsimp only
    rw [← hrest]

end Accurate

end IndexedTable

/-! ### What a run calls -/

namespace Decoder

variable (m : Model) (codec : Codec)

/-- What a command asks of the table. -/
def tableCalls (d : Decoder) (position : Nat) (c : Command) : List TableCall :=
  match c.opcode? with
  | some .bindTexture =>
    let tile := upcomingTile? m position
    let state := tile.elim d.state d.state.applyTile
    [.bind position c tile state.sScale state.tScale]
  | some .setTile => [.setTile d.state.texture c.tile]
  | some .loadPalette =>
    [.loadPalette m.textureData position d.state.texture (Command.paletteLength c.operand)]
  | some .loadVertices =>
    if d.state.boundary? = some .texture then
      [.materialFor codec m.textureData d.state.texture d.state.wrapS d.state.wrapT]
    else []
  | _ => []

/-- What the first `p` commands of a model ask of the table. -/
def tableCallsBefore (p : Nat) : List TableCall :=
  (List.range p).flatMap fun q =>
    m.commands[q]?.elim [] ((before m codec q).tableCalls m codec q)

/-- A command changes the table by what it asks of it. -/
theorem table_step (d : Decoder) (position : Nat) (c : Command) :
    (d.step m codec position c).2.table =
      (TableCall.answers TextureTable.perform d.table (d.tableCalls m codec position c)).1 := by
  have heffect := step_effect m codec d position c
  generalize (d.step m codec position c).2 = d' at heffect ⊢
  unfold tableCalls
  cases heffect with
  | idle h => rcases h with h | h | h <;> rw [h] <;> rfl
  | selectNull h | bindTexture h | setTile h | setScale h => rw [h]; rfl
  | loadPalette h =>
    rw [h, loadPalette_table]
    rfl
  | loadVertices h =>
    rw [h, loadVertices_table]
    cases hb : d.state.boundary? with
    | none => rfl
    | some b => cases b <;> rfl
  | stray h => rcases c.faces_ne_nil_iff.mp h with h | h <;> rw [h] <;> rfl
  | draw h =>
    rw [foldl_drawTriangle_table]
    rcases c.faces_ne_nil_iff.mp h with h | h <;> rw [h] <;> rfl

/-- A run changes the table by what its commands ask of it. -/
theorem table_before (p : Nat) : (before m codec p).table =
    (TableCall.answers TextureTable.perform (start m).table (tableCallsBefore m codec p)).1 := by
  induction p with
  | zero => rfl
  | succ p ih =>
    rw [tableCallsBefore, List.range_succ, List.flatMap_append, TableCall.answers_append,
      ← tableCallsBefore, ← ih, List.flatMap_singleton]
    cases hc : m.commands[p]? with
    | none => rw [before_succ_of_none hc]; rfl
    | some c => rw [before_succ hc, table_step]; rfl

/-- With an index beside the table, a run gets the same answers and comes to the same table, and
each entry of the index is the material that a search would find. -/
theorem materials_by_index (p : Nat) :
    let calls := tableCallsBefore m codec p
    let indexed := TableCall.answers IndexedTable.perform (.start m.textures) calls
    indexed.1.table = (before m codec p).table ∧
      indexed.2 = (TableCall.answers TextureTable.perform (start m).table calls).2 ∧
      indexed.1.Accurate := by
  intro calls indexed
  obtain ⟨hanswers, haccurate⟩ := (IndexedTable.Accurate.start m.textures).answers calls
  refine ⟨?_, congrArg Prod.snd hanswers, haccurate⟩
  rw [table_before]
  exact congrArg Prod.fst hanswers

end Decoder

end DisplayList

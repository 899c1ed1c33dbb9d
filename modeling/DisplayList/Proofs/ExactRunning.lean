import DisplayList.Proofs.Addresses
import DisplayList.Proofs.ExactLoading
import DisplayList.Proofs.UnboundTextures

/-!
# Running without wrapping

Each command reckons with a few numbers: where texels start and palettes end, what epoch comes next,
which vertices are loaded, and where new entries stand. Each of these is bounded for a reason of its
own, and together they are what `Decoder.Roomy` says; a run over a roomy model passes through such
decoders only. So in any sound way to reckon, the exact one included, the run is the plain one.
-/
namespace DisplayList

/-- Nothing that the next command reckons with wraps in such a decoder. -/
structure Decoder.Roomy (d : Decoder) : Prop where
  textures : ∀ t ∈ d.table.textures.toList, t.Roomy
  epoch : d.state.epoch.toNat + 1 < 2 ^ 32

theorem Command.paletteLength_le (operand : UInt32) : paletteLength operand ≤ 512 := by
  have hlt : bitField operand.toNat 14 8 < 256 := bitField_lt ..
  rw [paletteLength_eq]
  omega

/-- Steps that come to what plain ones do, one after the other, come to what those do. -/
theorem foldlM_eq_ok {ε α β : Type} {f : β → α → Except ε β} {g : β → α → β} {xs : List α}
    (h : ∀ b, ∀ x ∈ xs, f b x = .ok (g b x)) (b : β) : xs.foldlM f b = .ok (xs.foldl g b) := by
  induction xs generalizing b with
  | nil => rfl
  | cons x xs ih =>
    rw [List.foldlM_cons, h b x (List.mem_cons_self ..), ok_bind, List.foldl_cons]
    exact ih (fun b y hy => h b y (List.mem_cons_of_mem _ hy)) _

namespace Arithmetic.Sound

open Decoder Recording TextureTable

variable {ε : Type} {ar : Arithmetic (Except ε)} (h : ar.Sound)

include h

/-! ### Textures and palettes -/

section Textures

variable {t : Texture} {table : TextureTable} (address : UInt32) (position index : Nat)

theorem texelOffset (ht : t.Roomy) : t.texelOffsetBy ar = .ok t.texelOffset := by
  have hpalette := t.format.paletteLength_le
  have haddress := ht.address
  have htoNat : (UInt32.ofNat t.format.paletteLength).toNat = t.format.paletteLength := by
    rw [UInt32.toNat_ofNat']
    omega
  exact h.addWords (by omega)

theorem answersTo (ht : t.Roomy) : t.answersToBy ar address = .ok (t.answersTo address) := by
  rw [Texture.answersToBy, h.texelOffset ht, Texture.answersTo_eq]
  by_cases hfirst : t.dataOffset = address
  · rw [if_pos hfirst, decide_eq_true hfirst]
    rfl
  · rw [if_neg hfirst, decide_eq_false hfirst]
    rfl

theorem findFrom {ts : List Texture} (hts : ∀ t ∈ ts, t.Roomy) :
    findFromBy ar address index ts = .ok (Id.run (findFromBy .plain address index ts)) := by
  induction ts generalizing index with
  | nil => rfl
  | cons t ts ih =>
    rw [List.forall_mem_cons] at hts
    rw [findFromBy, h.answersTo address hts.1, ok_bind, ih _ hts.2]
    show _ = Except.ok (if t.answersTo address = true then some index
      else Id.run (findFromBy .plain address (index + 1) ts))
    split <;> rfl

variable (htable : ∀ t ∈ table.textures.toList, t.Roomy)

include htable

theorem select (c : Command) : table.selectBy ar position c = .ok (table.select position c) := by
  rw [selectBy, h.findFrom _ _ htable, ok_bind, select_eq, find?]
  cases Id.run (findFromBy .plain c.address 0 table.textures.toList) with
  | some index => rfl
  | none =>
    dsimp only
    rw [h.subSizes (by simp [grow]), ok_bind]
    simp [grow]
    rfl

theorem bind (c : Command) (tile : Option Tile) (sScale tScale : Float32) :
    table.bindBy ar position c tile sScale tScale =
      .ok (table.bind position c tile sScale tScale) := by
  rw [bindBy, h.select position htable, ok_bind]
  rfl

theorem loadPalette (data : Bytes) {size : Nat} (hsize : size ≤ 512) :
    table.loadPaletteBy ar data position index size =
      .ok (table.loadPalette data position index size) := by
  rw [TextureTable.loadPaletteBy, TextureTable.loadPalette_eq]
  cases ht : table.textures[index]? with
  | none => rfl
  | some t =>
    have hroomy := htable t (Array.mem_toList_iff.mpr (Array.mem_of_getElem? ht))
    have haddress := hroomy.address
    dsimp only
    rw [h.slice data (by omega)]
    rfl

end Textures

theorem paletteLength (operand : UInt32) :
    Command.paletteLengthBy ar operand = .ok (Command.paletteLength operand) := by
  have hlt : bitField operand.toNat 14 8 < 256 := bitField_lt ..
  have hcolours : (UInt32.ofNat (bitField operand.toNat 14 8)).toNat =
      bitField operand.toNat 14 8 := by
    rw [UInt32.toNat_ofNat']
    omega
  have htwice : (UInt32.ofNat (bitField operand.toNat 14 8) * 2).toNat =
      bitField operand.toNat 14 8 * 2 := by
    rw [UInt32.toNat_mul, hcolours]
    simp only [UInt32.reduceToNat]
    omega
  rw [Command.paletteLengthBy,
    h.mulWords (by rw [hcolours]; simp only [UInt32.reduceToNat]; omega), ok_bind,
    h.addWords (by rw [htwice]; simp only [UInt32.reduceToNat]; omega)]
  rfl

/-! ### Loads -/

section Loads

variable (m : Model) (codec : Codec) (d : Decoder)

theorem settle {s : DrawState} (hs : s.epoch.toNat + 1 < 2 ^ 32) :
    s.settleBy ar = .ok s.settle := by
  rw [DrawState.settleBy, DrawState.settle_eq]
  split
  · rw [h.addWords (by simpa using hs)]
    rfl
  · rfl

/-- A vertex that is loaded is the exact sum: it is not held at the greatest index there is. -/
theorem loadNext {start : Nat} {base : UInt32} {vertexCount : Nat} {epoch : UInt32} {n : Nat}
    (hn : base.toNat + n < 2 ^ 32) (before : VertexWindow × Array SkippedSlot) :
    VertexWindow.loadNextBy ar start base vertexCount epoch before n =
      .ok (VertexWindow.loadNext start base vertexCount epoch before n) := by
  rw [VertexWindow.loadNextBy, h.advance hn, ok_bind, VertexWindow.loadNext_eq,
    VertexWindow.nthFrom_eq, Nat.min_eq_left (by omega)]
  rfl

theorem loadWindow (w : VertexWindow) (c : Command) (vertexCount : Nat) (epoch : UInt32) :
    w.loadBy ar c.vertexLoad.start c.vertexLoad.count c.vertexLoad.base vertexCount epoch =
      .ok (w.load c.vertexLoad.start c.vertexLoad.count c.vertexLoad.base vertexCount epoch) := by
  have hbase := c.vertexLoad_base_lt
  have hcount := c.vertexLoad_count_lt
  have hstart := c.vertexLoad_start_le
  rw [VertexWindow.loadBy, h.addSizes (by omega), ok_bind, Nat.add_sub_cancel_left,
    VertexWindow.load_eq,
    foldlM_eq_ok fun before n hn => h.loadNext (by have := List.mem_range.mp hn; omega) before]
  rfl

theorem openRecording (r : Recording) (material : Nat) (epoch : UInt32) :
    r.openBatchBy ar material epoch =
      .ok (r.openBatch material epoch, (r.openBatch material epoch).batches.size - 1) := by
  rw [Recording.openBatchBy, h.subSizes (by simp)]
  rfl

theorem openBatch (boundary : Boundary) :
    d.openBatchBy ar m codec boundary = .ok (d.openBatch m codec boundary) := by
  obtain ⟨state, table, recording, entries⟩ := d
  unfold Decoder.openBatchBy
  dsimp only
  rw [h.openRecording]
  rfl

end Loads

/-! ### Faces -/

section Faces

theorem pushUv (pool : Array TexCoord) (uv : TexCoord) :
    pushUvBy ar pool uv = .ok (pool.push uv, pool.size) := by
  rw [pushUvBy, h.subSizes (by simp), ok_bind, Array.size_push, Nat.add_sub_cancel]
  rfl

theorem addTriangle (r : Recording) (vertices : Triangle UInt32) (uvs : Triangle TexCoord) :
    r.addTriangleBy ar vertices uvs = .ok (r.addTriangle vertices uvs) := by
  obtain ⟨batches, pool⟩ := r
  rw [addTriangleBy, Recording.addTriangle_eq]
  split
  · rfl
  · rename_i hopen
    have hsize : 1 ≤ batches.size := by
      rw [Array.isEmpty_iff_size_eq_zero] at hopen
      omega
    simp only [h.subSizes hsize, h.pushUv, ok_bind, Array.size_push]
    rfl

theorem drawTriangle (m : Model) (position : Nat) (epoch : UInt32) (d : Decoder)
    (slots : Triangle Nat) : drawTriangleBy ar m position epoch d slots =
      .ok (Decoder.drawTriangle m position epoch d slots) := by
  rw [drawTriangleBy, Decoder.drawTriangle_eq]
  cases d.state.window.resolveTriangle epoch slots with
  | error fault => rfl
  | ok vertices =>
    dsimp only
    rw [h.addTriangle]
    rfl

theorem drawFaces (m : Model) (d : Decoder) (position : Nat) (opcode : Opcode)
    (faces : List (Triangle Nat)) : d.drawFacesBy ar m position opcode faces =
      .ok (d.drawFaces m position opcode faces) := by
  rw [drawFacesBy, Decoder.drawFaces_eq]
  cases d.recording.epoch? with
  | none => rfl
  | some epoch =>
    dsimp only
    rw [foldlM_eq_ok fun d slots _ => h.drawTriangle m position epoch d slots]
    rfl

end Faces

/-! ### Commands -/

section Commands

variable {m : Model} {codec : Codec} {d : Decoder} {position : Nat} {c : Command}

theorem upcomingTile (hposition : position < 2 ^ 32) :
    upcomingTileBy ar m position = .ok (upcomingTile? m position) := by
  rw [upcomingTileBy, h.addSizes (by omega)]
  rfl

theorem marksTexture (hposition : position < 2 ^ 32) :
    marksTextureBy ar m position = .ok (Decoder.marksTexture m position) := by
  rw [marksTextureBy, h.addSizes (by rw [markDistance]; omega)]
  rfl

theorem bindTexture (hd : d.Roomy) (hposition : position < 2 ^ 32) :
    d.bindTextureBy ar m position c = .ok (d.bindTexture m position c) := by
  rw [bindTextureBy, h.upcomingTile hposition, ok_bind, bindWithBy]
  dsimp only
  rw [h.bind position hd.textures]
  rfl

theorem setPalette (hd : d.Roomy) (hposition : position < 2 ^ 32) :
    d.loadPaletteBy ar m position c = .ok (d.loadPalette m position c) := by
  rw [Decoder.loadPaletteBy, h.paletteLength, ok_bind]
  dsimp only
  rw [h.loadPalette position _ hd.textures _ (Command.paletteLength_le _), ok_bind,
    h.marksTexture hposition]
  rfl

theorem loadVertices (hd : d.Roomy) :
    d.loadVerticesBy ar m codec position c = .ok (d.loadVertices m codec position c) := by
  rw [loadVerticesBy, Decoder.loadVertices_eq]
  dsimp only
  rw [h.settle hd.epoch, ok_bind, h.loadWindow, ok_bind]
  cases d.state.boundary? with
  | none => rfl
  | some boundary =>
    dsimp only [Option.elim_some]
    rw [h.openBatch]
    rfl

/-- A command carried out soundly in a roomy decoder comes to what it comes to anyway. -/
theorem step (hd : d.Roomy) (hposition : position < 2 ^ 32) :
    d.stepBy ar m codec position c = .ok (d.step m codec position c) := by
  rw [stepBy, step_eq]
  cases c.opcode? with
  | none => rfl
  | some opcode =>
    cases opcode with
    | groupStart | newTexture | selectNull | setTile | setScale => rfl
    | bindTexture =>
      dsimp only
      rw [h.bindTexture hd hposition]
      rfl
    | loadPalette =>
      dsimp only
      rw [h.setPalette hd hposition]
      rfl
    | loadVertices =>
      dsimp only
      rw [h.loadVertices hd]
      rfl
    | drawTriangle => exact h.drawFaces ..
    | drawQuad => exact h.drawFaces ..

end Commands

end Arithmetic.Sound

/-! ### Runs over roomy models -/

namespace Decoder

open Diagnostic Texture

variable {m : Model} {codec : Codec}

theorem roomy_of_became {t u : Texture} (h : t.Roomy) (hbecame : Became t u) : u.Roomy := by
  obtain ⟨hoffset, hwidth, hheight, -⟩ := hbecame
  exact ⟨hoffset ▸ h.address, hwidth ▸ h.width, hheight ▸ h.height⟩

/-- The address of a texture that is added has 24 bits. -/
theorem roomy_added (c : Command) : (TextureTable.added c).Roomy := by
  have hlt : bitField c.operand.toNat 0 24 < 16777216 := bitField_lt ..
  have hzero : (0 : UInt32).toNat < 256 := by decide
  refine ⟨?_, hzero, hzero⟩
  simp only [TextureTable.added, Command.address, UInt32.toNat_ofNat']
  omega

/-- Tiles, palettes and images leave addresses and dimensions alone, and what is added is small:
so every texture of a run is roomy, and its format may be any. -/
theorem roomy_textures_before (hm : m.Roomy) (codec : Codec) (p : Nat) :
    ∀ t ∈ (before m codec p).table.textures.toList, t.Roomy := by
  intro u hu
  obtain ⟨i, hi, rfl⟩ := List.mem_iff_getElem.mp hu
  have hu : (before m codec p).table.textures[i]? =
      some ((before m codec p).table.textures.toList[i]) := by
    rw [← Array.getElem?_toList, List.getElem?_eq_getElem hi]
  obtain ⟨hsize, hadded⟩ := addedAsReported_before m codec p
  by_cases hold : i < m.textures.size
  · -- a texture of the model
    have ht := Array.getElem?_eq_getElem hold
    obtain ⟨u', hu', hbecame⟩ := revised_before m codec persists_became (Nat.zero_le p)
      (fun _ _ _ _ => scales_became) i _ ht
    obtain rfl := Option.some.inj (hu'.symm.trans hu)
    exact roomy_of_became (hm.textures _ (by simp)) hbecame
  · -- one that was added
    have hk : i - m.textures.size < (unknowns (before m codec p).diagnostics).length := by
      rw [Array.length_toList] at hi
      omega
    obtain ⟨-, c, u', -, -, hu', hbecame⟩ := hadded _ _ (List.getElem?_eq_getElem hk)
    rw [Nat.add_sub_cancel' (by omega)] at hu'
    obtain rfl := Option.some.inj (hu'.symm.trans hu)
    exact roomy_of_became (roomy_added c) hbecame

/-- There is at most one epoch for each command, and a file has no room for more of them. -/
theorem roomy_before (hm : m.Roomy) (codec : Codec) {p : Nat} (hp : p ≤ m.commands.size) :
    (before m codec p).Roomy := by
  have hcommands := hm.commands
  have hbatches := size_batches_before_le m codec p
  have hstamped := (stamped_before m codec (p := p) (by omega)).epoch_eq
  exact ⟨roomy_textures_before hm codec p, by omega⟩

end Decoder

namespace Arithmetic.Sound

open Decoder

variable {ε : Type} {ar : Arithmetic (Except ε)} (h : ar.Sound) {m : Model} (hm : m.Roomy)
  (codec : Codec)

include h hm

/-- From any position on, a sound run carries out what the plain one does. -/
theorem runFrom (limit : Nat) {p : Nat} {rest : List Command}
    (hrest : m.commands.toList.drop p = rest) :
    runFromBy ar m codec limit p rest (before m codec p) =
      .ok (Decoder.runFrom m codec limit p rest (before m codec p)) := by
  induction rest generalizing p with
  | nil => rfl
  | cons c rest ih =>
    have hc : m.commands[p]? = some c := by
      rw [← Array.getElem?_toList, ← List.head?_drop, hrest, List.head?_cons]
    have hp := (Array.getElem?_eq_some_iff.mp hc).1
    have hcommands := hm.commands
    rw [runFromBy, runFrom_cons]
    split
    · rfl
    · -- the decoders on the way are those of the plain run, so they are roomy
      rw [h.step (roomy_before hm codec (by omega)) (by omega), ok_bind]
      have hsucc : before m codec (p + 1) = _ := before_succ hc
      cases hstep : (before m codec p).step m codec p c with
      | mk result d =>
        rw [hstep] at hsucc
        cases result with
        | error e => rfl
        | ok u =>
          obtain rfl : before m codec (p + 1) = d := hsucc
          have hdrop : m.commands.toList.drop (p + 1) = rest := by
            rw [← List.tail_drop, hrest, List.tail_cons]
          dsimp only
          rw [h.addSizes (by omega), ok_bind, ih hdrop]

theorem run (limit : Nat) :
    runBy ar m codec limit (start m) = .ok (Decoder.run m codec limit (start m)) := by
  have hruns : runFromBy ar m codec limit 0 m.commands.toList (start m) =
      .ok (Decoder.runFrom m codec limit 0 m.commands.toList (start m)) :=
    h.runFrom hm codec limit (p := 0) rfl
  rw [runBy, hruns, ok_bind, run_eq]
  split <;> rfl

end Arithmetic.Sound

end DisplayList

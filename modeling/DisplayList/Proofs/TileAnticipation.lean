import DisplayList.Proofs.Failures
import DisplayList.Proofs.Segmentation

/-!
# The lookahead for tiles only anticipates

Binding a texture applies the tile record that is coming up, which is then applied once more when
it is carried out. Until then the decoder that looks ahead is the one that does not, with that
tile applied: faces, palettes, scales and changes of material notice nothing of it. Only a load
or another binding would, since a load may make an image and a binding looks for addresses. If
neither comes first, both decoders are the same again as soon as the record is carried out.
-/
namespace DisplayList

namespace TextureTable

variable (table : TextureTable) (index : Nat) (tile : Tile)

theorem modify_modify (f g : Texture → Texture) :
    (table.modify index f).modify index g = table.modify index fun t => g (f t) := by
  simp only [modify, TextureTable.mk.injEq, and_self, and_true]
  apply Array.ext_getElem?
  intro i
  by_cases hi : index = i
  · simp [Array.getElem?_modify, hi, Function.comp_def]
  · simp [Array.getElem?_modify, hi]

/-- Applying a tile once more changes nothing. -/
theorem setTile_setTile :
    (table.setTile index tile).setTile index tile = table.setTile index tile := by
  rw [setTile, setTile, modify_modify]
  congr 1
  funext t
  unfold Texture.applyTile
  cases TexelFormat.ofKindSize? tile.kind.toNat tile.size.toNat <;> rfl

/-- Tiles leave ratios alone. -/
@[simp] theorem ratio_setTile (i : Nat) : (table.setTile index tile).ratio i = table.ratio i := by
  by_cases hi : index = i
  · subst hi
    simp only [ratio, setTile, modify, Array.getElem?_modify, if_true, Option.map_map]
    rfl
  · simp [ratio, setTile, modify, Array.getElem?_modify, hi]

/-- A palette is found and kept alike with a tile applied. -/
theorem loadPalette_setTile (data : Bytes) (position size : Nat) :
    (table.setTile index tile).loadPalette data position index size =
      ((table.loadPalette data position index size).1.setTile index tile,
        (table.loadPalette data position index size).2) := by
  have hfound : ((table.setTile index tile).textures[index]?.bind fun t =>
      data.slice? t.dataOffset.toNat size) =
      table.textures[index]?.bind fun t => data.slice? t.dataOffset.toNat size := by
    simp only [setTile, modify, Array.getElem?_modify, if_true, Option.bind_map]
    rfl
  rw [loadPalette_eq, loadPalette_eq, hfound]
  cases table.textures[index]?.bind fun t => data.slice? t.dataOffset.toNat size with
  | none => rfl
  | some palette =>
    simp only [setTile, modify_modify]
    rfl

/-- The tile given to a binding is applied to the texture that is bound. -/
theorem bind_some (position : Nat) (c : Command) (sScale tScale : Float32) :
    table.bind position c (some tile) sScale tScale =
      ((table.bind position c none sScale tScale).1.setTile
          (table.bind position c none sScale tScale).2.1 tile,
        (table.bind position c none sScale tScale).2) := by
  simp only [bind_eq, setTile, modify_modify]
  rfl

end TextureTable

namespace Model

variable (m : Model)

/-- The tile record at a position, if there is one. -/
def tile? (q : Nat) : Option Tile :=
  m.commands[q]?.bind fun c => if c.opcode? = some .setTile then some c.tile else none

/-- The first tile record within reach of the command at `i` is at `j`. -/
structure UpcomingTile (i j : Nat) (tile : Tile) : Prop where
  later : i < j
  reach : j ≤ i + Decoder.tileReach
  record : m.tile? j = some tile
  first : ∀ r, i < r → r < j → m.tile? r = none

/-- Between each binding and the tile record that it finds nothing is loaded or bound. -/
def Undisturbed : Prop :=
  ∀ i c j tile, m.bind? i = some c → m.UpcomingTile i j tile →
    ∀ r, i < r → r < j → m.load? r = none ∧ m.bind? r = none

variable {m}

theorem tile?_eq_some_iff {q : Nat} {tile : Tile} : m.tile? q = some tile ↔
    ∃ c, m.commands[q]? = some c ∧ c.opcode? = some .setTile ∧ c.tile = tile := by
  simp only [tile?, Option.bind_eq_some_iff, Option.ite_none_right_eq_some, Option.some.injEq]

end Model

namespace Decoder

open TextureTable

theorem exists_upcomingTile {m : Model} {i : Nat} {tile : Tile}
    (h : upcomingTile? m i = some tile) : ∃ j, m.UpcomingTile i j tile := by
  rw [upcomingTile?_eq] at h
  obtain ⟨n, hn, hfound, hfirst⟩ := findSome?_range_eq_some_iff.mp h
  refine ⟨i + 1 + n, by omega, by omega, hfound, fun r hr hrn => ?_⟩
  have hnone := hfirst (r - (i + 1)) (by omega)
  rwa [show i + 1 + (r - (i + 1)) = r by omega] at hnone

variable (m : Model) (codec : Codec) (d : Decoder) (position : Nat) (c : Command) (tile : Tile)

/-! ### What a tile applied early does not change -/

/-- A binding with a tile is one without, with the tile applied to what it binds. -/
theorem bindWith_some :
    d.bindWith (some tile) position c = (d.bindWith none position c).setTile tile := by
  simp only [bindWith_eq, bind_some, setTile, Option.elim]
  rfl

theorem setTile_setTile : (d.setTile tile).setTile tile = d.setTile tile := by
  have htable := d.table.setTile_setTile d.state.texture tile
  simp only [setTile, DrawState.applyTile, htable]

theorem loadPalette_setTile :
    (d.setTile tile).loadPalette m position c = (d.loadPalette m position c).setTile tile := by
  have htable := d.table.loadPalette_setTile d.state.texture tile m.textureData position
    (Command.paletteLength c.operand)
  have hstate : (d.state.applyTile tile).texture = d.state.texture := rfl
  simp only [loadPalette_eq, setTile, hstate, htable]
  split <;> rfl

theorem drawTriangle_setTile (epoch : UInt32) (slots : Triangle Nat) :
    drawTriangle m position epoch (d.setTile tile) slots =
      (drawTriangle m position epoch d slots).setTile tile := by
  have hwindow : (d.setTile tile).state.window = d.state.window := rfl
  have hratio : (d.setTile tile).table.ratio (d.setTile tile).state.texture =
      d.table.ratio d.state.texture := ratio_setTile _ _ _ _
  rw [drawTriangle_eq, drawTriangle_eq, hwindow, hratio]
  cases d.state.window.resolveTriangle epoch slots <;> rfl

theorem foldl_drawTriangle_setTile (epoch : UInt32) (faces : List (Triangle Nat)) :
    faces.foldl (drawTriangle m position epoch) (d.setTile tile) =
      (faces.foldl (drawTriangle m position epoch) d).setTile tile := by
  induction faces generalizing d with
  | nil => rfl
  | cons slots faces ih => rw [List.foldl_cons, drawTriangle_setTile, ih, List.foldl_cons]

theorem drawFaces_setTile (opcode : Opcode) (faces : List (Triangle Nat)) :
    (d.setTile tile).drawFaces m position opcode faces =
      ((d.drawFaces m position opcode faces).1,
        (d.drawFaces m position opcode faces).2.setTile tile) := by
  have hepoch : (d.setTile tile).recording.epoch? = d.recording.epoch? := rfl
  rw [drawFaces_eq, drawFaces_eq, hepoch]
  cases d.recording.epoch? with
  | none => rfl
  | some epoch => simp only [foldl_drawTriangle_setTile]

/-- Every command but a load, a binding and a tile record does the same with a tile applied
before it as with the tile applied after it. -/
theorem step_setTile (hload : c.opcode? ≠ some .loadVertices)
    (hbind : c.opcode? ≠ some .bindTexture) (htile : c.opcode? ≠ some .setTile) :
    (d.setTile tile).step m codec position c =
      ((d.step m codec position c).1, (d.step m codec position c).2.setTile tile) := by
  rw [step_eq, step_eq]
  split
  · rfl
  · rfl
  · rfl
  · rfl
  · exact absurd ‹_› hbind
  · exact absurd ‹_› htile
  · simp only [loadPalette_setTile]
  · rfl
  · exact absurd ‹_› hload
  · exact drawFaces_setTile ..
  · exact drawFaces_setTile ..

/-! ### Two runs -/

/-- Carries out commands that start at `position` by a given step, up to the limit. -/
def runWith (step : Decoder → Nat → Command → Except DecodeError Unit × Decoder) (limit : Nat) :
    Nat → List Command → Decoder → Except DecodeError Unit × Decoder
  | _, [], d => (.ok (), d)
  | position, c :: rest, d =>
    if limit ≤ position then (.error (.commandLimitExceeded limit), d)
    else
      match step d position c with
      | (.error e, d) => (.error e, d)
      | (.ok (), d) => runWith step limit (position + 1) rest d

/-- What a run over a whole model comes to: its failure, or where it ended, noted. -/
def conclude (m : Model) : Except DecodeError Unit × Decoder → Logged DecodeError Decoder
  | (.error e, d) => ⟨.error e, d.journal⟩
  | (.ok (), d) => ⟨.ok (d.finish m), (d.finish m).journal⟩

/-- Carries out one command like `step`, but binds textures without looking ahead. -/
def stepPlain (m : Model) (codec : Codec) (d : Decoder) (position : Nat) (c : Command) :
    Except DecodeError Unit × Decoder :=
  if c.opcode? = some .bindTexture then (.ok (), d.bindWith none position c)
  else d.step m codec position c

/-- Carries out all commands of the model without looking ahead. -/
def runPlain (m : Model) (codec : Codec) (limit : Nat) (d : Decoder) : Logged DecodeError Decoder :=
  conclude m (runWith (stepPlain m codec) limit 0 m.commands.toList d)

variable {m codec d position c tile} {e : Decoder} {p limit : Nat} {cs : List Command}

/-- With the step that looks ahead it is the run itself. -/
theorem runWith_step (limit position : Nat) (cs : List Command) (d : Decoder) :
    runWith (step m codec) limit position cs d = runFrom m codec limit position cs d := by
  induction cs generalizing position d with
  | nil => rfl
  | cons c cs ih =>
    rw [runWith, runFrom_cons]
    split_ifs
    · rfl
    · obtain ⟨outcome, d'⟩ := d.step m codec position c
      cases outcome with
      | error e => rfl
      | ok done => exact ih (position + 1) d'

theorem run_eq_conclude (limit : Nat) (d : Decoder) : run m codec limit d =
    conclude m (runWith (step m codec) limit 0 m.commands.toList d) := by
  rw [runWith_step, run_eq]
  obtain ⟨outcome, d'⟩ := runFrom m codec limit 0 m.commands.toList d
  cases outcome with
  | error e => rfl
  | ok done => rfl

end Decoder

/-- A tile record is due at `j`, and no command before it from `p` on notices its tile. -/
structure Model.Awaits (m : Model) (p j : Nat) (tile : Tile) : Prop where
  later : p ≤ j
  record : m.tile? j = some tile
  quiet : ∀ r, p ≤ r → r < j → m.tile? r = none ∧ m.load? r = none ∧ m.bind? r = none

namespace Decoder

/-- How the decoder `d` that looks ahead stands to the plain one `e` before the command at `p`: they
are the same, or `d` has the tile applied already that is due next. -/
def Ahead (m : Model) (p : Nat) (d e : Decoder) : Prop :=
  d = e ∨ ∃ j tile, m.Awaits p j tile ∧ d = e.setTile tile

theorem Ahead.eq_or (h : Ahead m p d e) : d = e ∨ ∃ tile, d = e.setTile tile := by
  rcases h with hd | ⟨-, tile, -, hd⟩
  · exact .inl hd
  · exact .inr ⟨tile, hd⟩

/-- One command keeps them so, and succeeds or fails for both alike. -/
theorem ahead_step (codec : Codec) (h : Ahead m p d e) (hquiet : m.Undisturbed)
    (hc : m.commands[p]? = some c) :
    (d.step m codec p c).1 = (e.stepPlain m codec p c).1 ∧
      Ahead m (p + 1) (d.step m codec p c).2 (e.stepPlain m codec p c).2 := by
  rcases h with rfl | ⟨j, tile, hawaits, rfl⟩
  · by_cases ho : c.opcode? = some .bindTexture
    · have hstep : d.step m codec p c = (.ok (), d.bindTexture m p c) := by simp only [step_eq, ho]
      rw [hstep, stepPlain, if_pos ho, bindTexture_eq]
      refine ⟨rfl, ?_⟩
      cases htile : upcomingTile? m p with
      | none => exact .inl rfl
      | some tile =>
        obtain ⟨j, hj⟩ := exists_upcomingTile htile
        refine .inr ⟨j, tile, ⟨hj.later, hj.record, fun r hr hrj => ?_⟩, bindWith_some _ _ _ _⟩
        have hbind := Model.bind?_eq_some_iff.mpr ⟨hc, ho⟩
        exact ⟨hj.first r hr hrj, hquiet p c j tile hbind hj r hr hrj⟩
    · rw [stepPlain, if_neg ho]
      exact ⟨rfl, .inl rfl⟩
  · rcases Nat.eq_or_lt_of_le hawaits.later with rfl | hlt
    · obtain ⟨c', hc', ho, rfl⟩ := Model.tile?_eq_some_iff.mp hawaits.record
      obtain rfl : c = c' := Option.some.inj (hc.symm.trans hc')
      have hstep (d : Decoder) : d.step m codec p c = (.ok (), d.setTile c.tile) := by
        simp only [step_eq, ho]
      rw [stepPlain, if_neg (by simp [ho]), hstep, hstep, setTile_setTile]
      exact ⟨rfl, .inl rfl⟩
    · obtain ⟨htile, hload, hbind⟩ := hawaits.quiet p (Nat.le_refl p) hlt
      have hnotile : c.opcode? ≠ some .setTile := fun ho => by simp [Model.tile?, hc, ho] at htile
      have hnoload : c.opcode? ≠ some .loadVertices := fun ho => by
        simp [Model.load?, hc, ho] at hload
      have hnobind : c.opcode? ≠ some .bindTexture := fun ho => by
        simp [Model.bind?, hc, ho] at hbind
      rw [stepPlain, if_neg hnobind, step_setTile m codec e p c tile hnoload hnobind hnotile]
      exact ⟨rfl, .inr ⟨j, tile, ⟨hlt, hawaits.record,
        fun r hr hrj => hawaits.quiet r (by omega) hrj⟩, rfl⟩⟩

/-- How the ends of two such runs stand to each other. A run that fails may stop before the tile
record that is due. -/
structure EndsAlike (x y : Except DecodeError Unit × Decoder) : Prop where
  result_eq : x.1 = y.1
  decoder_eq : x.1 = .ok () → x.2 = y.2
  ahead : x.2 = y.2 ∨ ∃ tile, x.2 = y.2.setTile tile

theorem endsAlike_runWith (codec : Codec) (limit : Nat) (h : Ahead m p d e)
    (hquiet : m.Undisturbed) (hcs : m.commands.toList.drop p = cs) :
    EndsAlike (runWith (step m codec) limit p cs d) (runWith (stepPlain m codec) limit p cs e) := by
  induction cs generalizing p d e with
  | nil =>
    have hend : m.commands.size ≤ p := by simpa using List.drop_eq_nil_iff.mp hcs
    rcases h with rfl | ⟨j, tile, hawaits, -⟩
    · exact ⟨rfl, fun _ => rfl, .inl rfl⟩
    · obtain ⟨c, hc, -⟩ := Model.tile?_eq_some_iff.mp hawaits.record
      have hlt := (Array.getElem?_eq_some_iff.mp hc).1
      have hle := hawaits.later
      omega
  | cons c cs ih =>
    have hc : m.commands[p]? = some c := by
      rw [← Array.getElem?_toList, ← List.head?_drop, hcs, List.head?_cons]
    have hrest : m.commands.toList.drop (p + 1) = cs := by
      rw [← List.tail_drop, hcs, List.tail_cons]
    simp only [runWith]
    split
    · exact ⟨rfl, fun hok => by simp at hok, h.eq_or⟩
    · obtain ⟨hresult, hahead⟩ := ahead_step codec h hquiet hc
      cases hd : d.step m codec p c with
      | mk result d' =>
        cases he : e.stepPlain m codec p c with
        | mk result' e' =>
          rw [hd, he] at hresult hahead
          obtain rfl : result = result' := hresult
          cases result with
          | ok u => exact ih hahead hrest
          | error failure => exact ⟨rfl, fun hok => by simp at hok, hahead.eq_or⟩

/-- If nothing is loaded or bound between any binding and the tile record that it finds, looking
ahead makes no difference: the run comes to the same failure or the same decoder, reports the
same problems in the same order, and asks the codec the same, also when it fails. -/
theorem lookahead_anticipates (m : Model) (codec : Codec) (limit : Nat) (h : m.Undisturbed) :
    run m codec limit (start m) = runPlain m codec limit (start m) ∧
    (runWith (step m codec) limit 0 m.commands.toList (start m)).2.table.requests =
      (runWith (stepPlain m codec) limit 0 m.commands.toList (start m)).2.table.requests := by
  have hstart : Ahead m 0 (start m) (start m) := .inl rfl
  have hends := endsAlike_runWith codec limit hstart h (Eq.refl m.commands.toList)
  rw [run_eq_conclude, runPlain]
  revert hends
  generalize runWith (step m codec) limit 0 m.commands.toList (start m) = x
  generalize runWith (stepPlain m codec) limit 0 m.commands.toList (start m) = y
  obtain ⟨x, d⟩ := x
  obtain ⟨y, e⟩ := y
  rintro ⟨hresult, hok, hahead⟩
  obtain rfl : x = y := hresult
  constructor
  · cases x with
    | ok u => rw [show d = e from hok rfl]
    | error failure =>
      rcases hahead with hd | ⟨tile, hd⟩
      · rw [show d = e from hd]
      · rw [show d = e.setTile tile from hd]
        rfl
  · rcases hahead with hd | ⟨tile, hd⟩
    · rw [show d = e from hd]
    · rw [show d = e.setTile tile from hd]
      rfl

/-- A binding that finds a tile of another format, and in between a palette, scales and a face. -/
def sampleAhead : Model where
  vertices := .replicate 3 { uv := ⟨32, 32⟩ }
  textures := #[{ dataOffset := 0, format := .rgba16, width := 1, height := 1 }]
  textureData := [255, 255]
  commands := #[.ofFields 4 0 12 0 0, .ofFields 253 0 0 0 0, .ofFields 240 0 0 0 0,
    .ofFields 187 0 0 0 0x80008000, .ofFields 191 0 0 0 0x204, .ofFields 245 0x88 0 0 0x80200,
    .ofFields 4 0 12 0 0, .ofFields 191 0 0 0 0x204]

theorem undisturbed_sampleAhead : sampleAhead.Undisturbed := by
  intro i c j tile hbind hupcoming r hr hrj
  have hi : i = 1 := by
    have hall : ∀ i < 8, (sampleAhead.bind? i).isSome → i = 1 := by decide
    refine hall i ?_ (by simp [hbind])
    exact (Array.getElem?_eq_some_iff.mp (Model.bind?_eq_some_iff.mp hbind).1).1
  have hreach : j ≤ i + 4 := hupcoming.reach
  have hall : ∀ r < 5, 1 < r → sampleAhead.load? r = none ∧ sampleAhead.bind? r = none := by decide
  exact hall r (by omega) (by omega)

theorem lookahead_anticipates_gap : sampleAhead.Undisturbed ∧
    sampleAhead.UpcomingTile 1 5 ⟨4, 1, 2, 2⟩ ∧
    (∃ r, (run sampleAhead .packed 8 (start sampleAhead)).result = .ok r) ∧
    run sampleAhead .packed 8 (start sampleAhead) =
      runPlain sampleAhead .packed 8 (start sampleAhead) ∧
    (runWith (step sampleAhead .packed) 8 0 sampleAhead.commands.toList
      (start sampleAhead)).2.table.requests =
    (runWith (stepPlain sampleAhead .packed) 8 0 sampleAhead.commands.toList
      (start sampleAhead)).2.table.requests := by
  have hfirst : ∀ r < 5, 1 < r → sampleAhead.tile? r = none := by decide
  exact ⟨undisturbed_sampleAhead,
    ⟨by decide, by decide, by decide, fun r hr hr5 => hfirst r hr5 hr⟩, ⟨_, rfl⟩,
    lookahead_anticipates sampleAhead .packed 8 undisturbed_sampleAhead⟩

end Decoder

end DisplayList

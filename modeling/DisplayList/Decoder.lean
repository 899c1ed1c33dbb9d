import DisplayList.Batch
import DisplayList.DrawState
import DisplayList.Model.Basic
import DisplayList.Texture.Table

/-!
# Running a display list

Commands are carried out once, in order. Each one changes the drawing state, the
texture table or the recording of batches, and may report problems; only a face
without an open batch and a display list over the limit stop the run.
-/
namespace DisplayList

/-- What stops a run. -/
inductive DecodeError
  | strayFace (command : Nat) (opcode : UInt8)
  | commandLimitExceeded (limit : Nat)
  deriving DecidableEq, Repr

namespace DecodeError

def message : DecodeError → String
  | strayFace command opcode => s!"Face opcode {opcode} at command {command} with no open batch"
  | commandLimitExceeded limit => s!"Command limit of {limit} exceeded"

end DecodeError

/-- Everything that a run has come to so far. -/
structure Decoder where
  state : DrawState := .initial
  table : TextureTable
  recording : Recording := {}
  entries : Array Entry := #[]
  deriving DecidableEq, Repr

namespace Decoder

/-- Ready for the first command of a model. -/
def start (m : Model) : Decoder :=
  { table := { textures := m.textures } }

/-- What has been recorded so far. -/
def journal (d : Decoder) : Journal :=
  d.entries.toList

/-- The problems reported so far. -/
def diagnostics (d : Decoder) : List Diagnostic :=
  d.journal.diagnostics

/-- Records entries in order. -/
def record (d : Decoder) (j : Journal) : Decoder :=
  { d with entries := d.entries.appendList j }

/-- How many commands after a texture is bound its tile record is looked for. -/
def tileReach : Nat := 4

/-- How many commands after a palette the mark of a new texture stands. -/
def markDistance : Nat := 4

/-- Applies a tile record to the drawing state and to the texture bound last. -/
def setTile (d : Decoder) (tile : Tile) : Decoder :=
  { d with state := d.state.applyTile tile, table := d.table.setTile d.state.texture tile }

/-- Notes what a run over a whole model came to. -/
def finish (m : Model) (d : Decoder) : Decoder :=
  d.record [.note
    (.commandsDecoded m.commands.size d.recording.batches.size d.table.materials.size)]

section Reckoned

variable {M : Type → Type} [Monad M] (ar : Arithmetic M)

/-- The first tile record shortly after a position, which is a size: the position after it has to
be one as well. -/
def upcomingTileBy (m : Model) (position : Nat) : M (Option Tile) := do
  let next ← ar.addSizes position 1
  return (List.range tileReach).findSome? fun n =>
    m.commands[next + n]?.bind fun c =>
      if c.opcode? = some .setTile then some c.tile else none

/-- Whether a palette at a position is followed by the mark of a new texture, at a position that
has to be a size as well. -/
def marksTextureBy (m : Model) (position : Nat) : M Bool := do
  let mark ← ar.addSizes position markDistance
  return (m.commands[mark]?.bind Command.opcode?) = some .newTexture

/-- Binds the texture of a command, together with a tile, if one is at hand. -/
def bindWithBy (tile : Option Tile) (d : Decoder) (position : Nat) (c : Command) :
    M Decoder := do
  match d with
  | ⟨state, table, recording, entries⟩ =>
    let state := tile.elim state state.applyTile
    let (table, index, journal) ← table.bindBy ar position c tile state.sScale state.tScale
    return ⟨state.bindTexture index, table, recording, entries.appendList journal⟩

/-- Binds the texture of a command, together with the tile record that is coming up. -/
def bindTextureBy (m : Model) (d : Decoder) (position : Nat) (c : Command) : M Decoder := do
  d.bindWithBy ar (← upcomingTileBy ar m position) position c

/-- Loads a palette for the texture bound last; followed by the mark of a new texture,
it also brings a new material. -/
def loadPaletteBy (m : Model) (d : Decoder) (position : Nat) (c : Command) : M Decoder := do
  let size ← Command.paletteLengthBy ar c.operand
  match d with
  | ⟨state, table, recording, entries⟩ =>
    let (table, journal) ← table.loadPaletteBy ar m.textureData position state.texture size
    let marks ← marksTextureBy ar m position
    return ⟨if marks then state.markTexture else state, table, recording,
      entries.appendList journal⟩

/-- Opens a batch in the material that a change of material calls for. -/
def openBatchBy (m : Model) (codec : Codec) (d : Decoder) (boundary : Boundary) :
    M Decoder := do
  match d with
  | ⟨state, table, recording, entries⟩ =>
    let (table, material, journal) :=
      match boundary with
      | .null => (table, some Material.nullIndex, [])
      | .texture => table.materialFor codec m.textureData state.texture state.wrapS state.wrapT
    let material := material.getD Material.nullIndex
    let opened := Entry.note (.batchOpened recording.batches.size material state.epoch)
    let (recording, _) ← recording.openBatchBy ar material state.epoch
    return ⟨state, table, recording, (entries.appendList journal).push opened⟩

/-- Loads vertices into the window. A change of material that is due is settled first,
and then a batch is opened. -/
def loadVerticesBy (m : Model) (codec : Codec) (d : Decoder) (position : Nat) (c : Command) :
    M Decoder := do
  match d with
  | ⟨state, table, recording, entries⟩ =>
    let load := c.vertexLoad
    let boundary := state.boundary?
    let state ← state.settleBy ar
    let (window, skipped) ←
      state.window.loadBy ar load.start load.count load.base m.vertices.size state.epoch
    let reports := skipped.map fun skip => Entry.problem (skip.diagnostic position)
    let d : Decoder := ⟨{ state with window }, table, recording, entries.appendList reports⟩
    boundary.elim (pure d) (d.openBatchBy ar m codec)

/-- Records a face in the open batch, or reports the first of its slots without a vertex
of that batch. -/
def drawTriangleBy (m : Model) (position : Nat) (epoch : UInt32) (d : Decoder)
    (slots : Triangle Nat) : M Decoder := do
  match d.state.window.resolveTriangle epoch slots with
  | .error (slot, fault) => return d.record [.problem (.unresolvedSlot position slot fault)]
  | .ok vertices =>
    let ratio := d.table.ratio d.state.texture
    let uvs := vertices.map fun v => (Model.vertexAt m.vertices v.toNat).uv.scaleBy ratio
    return { d with recording := ← d.recording.addTriangleBy ar vertices uvs }

/-- Records the faces of a command, which needs an open batch. -/
def drawFacesBy (m : Model) (d : Decoder) (position : Nat) (opcode : Opcode)
    (faces : List (Triangle Nat)) : M (Except DecodeError Unit × Decoder) := do
  match d.recording.epoch? with
  | none => return (.error (.strayFace position opcode.byte), d)
  | some epoch => return (.ok (), ← faces.foldlM (drawTriangleBy ar m position epoch) d)

/-- Carries out one command as the one at `position`. The decoder that comes with a
failure is the one as it was. -/
def stepBy (m : Model) (codec : Codec) (d : Decoder) (position : Nat) (c : Command) :
    M (Except DecodeError Unit × Decoder) := do
  match c.opcode? with
  | none | some .groupStart | some .newTexture => return (.ok (), d)
  | some .selectNull => return (.ok (), { d with state := d.state.selectNull })
  | some .bindTexture => return (.ok (), ← d.bindTextureBy ar m position c)
  | some .setTile => return (.ok (), d.setTile c.tile)
  | some .loadPalette => return (.ok (), ← d.loadPaletteBy ar m position c)
  | some .setScale => return (.ok (), { d with state := d.state.setScales c.operand })
  | some .loadVertices => return (.ok (), ← d.loadVerticesBy ar m codec position c)
  | some .drawTriangle => d.drawFacesBy ar m position .drawTriangle [c.triangle]
  | some .drawQuad => d.drawFacesBy ar m position .drawQuad [c.firstTriangle, c.triangle]

/-- Carries out commands that start at `position`, up to the limit. -/
def runFromBy (m : Model) (codec : Codec) (limit : Nat) :
    Nat → List Command → Decoder → M (Except DecodeError Unit × Decoder)
  | _, [], d => return (.ok (), d)
  | position, c :: rest, d => do
    if limit ≤ position then return (.error (.commandLimitExceeded limit), d)
    else
      match ← d.stepBy ar m codec position c with
      | (.error e, d) => return (.error e, d)
      | (.ok (), d) => runFromBy m codec limit (← ar.addSizes position 1) rest d

/-- Carries out all commands of the model from a decoder on. -/
def runBy (m : Model) (codec : Codec) (limit : Nat) (d : Decoder) :
    M (Logged DecodeError Decoder) := do
  match ← runFromBy ar m codec limit 0 m.commands.toList d with
  | (.error e, d) => return ⟨.error e, d.journal⟩
  | (.ok (), d) =>
    let d := d.finish m
    return ⟨.ok d, d.journal⟩

end Reckoned

def upcomingTile? (m : Model) (position : Nat) : Option Tile :=
  Id.run (upcomingTileBy .plain m position)

def marksTexture (m : Model) (position : Nat) : Bool :=
  Id.run (marksTextureBy .plain m position)

def bindWith (tile : Option Tile) (d : Decoder) (position : Nat) (c : Command) : Decoder :=
  Id.run (bindWithBy .plain tile d position c)

def bindTexture (m : Model) (d : Decoder) (position : Nat) (c : Command) : Decoder :=
  Id.run (bindTextureBy .plain m d position c)

def loadPalette (m : Model) (d : Decoder) (position : Nat) (c : Command) : Decoder :=
  Id.run (loadPaletteBy .plain m d position c)

def openBatch (m : Model) (codec : Codec) (d : Decoder) (boundary : Boundary) : Decoder :=
  Id.run (openBatchBy .plain m codec d boundary)

def loadVertices (m : Model) (codec : Codec) (d : Decoder) (position : Nat) (c : Command) :
    Decoder :=
  Id.run (loadVerticesBy .plain m codec d position c)

def drawTriangle (m : Model) (position : Nat) (epoch : UInt32) (d : Decoder)
    (slots : Triangle Nat) : Decoder :=
  Id.run (drawTriangleBy .plain m position epoch d slots)

def drawFaces (m : Model) (d : Decoder) (position : Nat) (opcode : Opcode)
    (faces : List (Triangle Nat)) : Except DecodeError Unit × Decoder :=
  Id.run (drawFacesBy .plain m d position opcode faces)

def step (m : Model) (codec : Codec) (d : Decoder) (position : Nat) (c : Command) :
    Except DecodeError Unit × Decoder :=
  Id.run (stepBy .plain m codec d position c)

def runFrom (m : Model) (codec : Codec) (limit position : Nat) (cs : List Command)
    (d : Decoder) : Except DecodeError Unit × Decoder :=
  Id.run (runFromBy .plain m codec limit position cs d)

def run (m : Model) (codec : Codec) (limit : Nat) (d : Decoder) : Logged DecodeError Decoder :=
  Id.run (runBy .plain m codec limit d)

section Equations

variable (m : Model) (codec : Codec) (d : Decoder) (position : Nat) (c : Command)

theorem upcomingTile?_eq : upcomingTile? m position =
    (List.range tileReach).findSome? fun n =>
      m.commands[position + 1 + n]?.bind fun c =>
        if c.opcode? = some .setTile then some c.tile else none := rfl

theorem marksTexture_eq : marksTexture m position =
    decide ((m.commands[position + markDistance]?.bind Command.opcode?) = some .newTexture) := rfl

theorem bindWith_eq (tile : Option Tile) : d.bindWith tile position c =
    let state := tile.elim d.state d.state.applyTile
    let (table, index, journal) := d.table.bind position c tile state.sScale state.tScale
    ⟨state.bindTexture index, table, d.recording, d.entries.appendList journal⟩ := rfl

theorem bindTexture_eq :
    d.bindTexture m position c = d.bindWith (upcomingTile? m position) position c := rfl

theorem loadPalette_eq : d.loadPalette m position c =
    let (table, journal) := d.table.loadPalette m.textureData position d.state.texture
      (Command.paletteLength c.operand)
    ⟨if marksTexture m position then d.state.markTexture else d.state, table, d.recording,
      d.entries.appendList journal⟩ := rfl

theorem drawTriangle_eq (epoch : UInt32) (slots : Triangle Nat) :
    drawTriangle m position epoch d slots =
      match d.state.window.resolveTriangle epoch slots with
      | .error (slot, fault) => d.record [.problem (.unresolvedSlot position slot fault)]
      | .ok vertices =>
        { d with recording := d.recording.addTriangle vertices (vertices.map fun v =>
            (Model.vertexAt m.vertices v.toNat).uv.scaleBy (d.table.ratio d.state.texture)) } := by
  unfold drawTriangle drawTriangleBy
  split <;> rfl

theorem drawFaces_eq (opcode : Opcode) (faces : List (Triangle Nat)) :
    d.drawFaces m position opcode faces =
      match d.recording.epoch? with
      | none => (.error (.strayFace position opcode.byte), d)
      | some epoch => (.ok (), faces.foldl (drawTriangle m position epoch) d) := by
  unfold drawFaces drawFacesBy
  split
  · rfl
  · exact congrArg (Prod.mk _) List.idRun_foldlM

theorem step_eq : d.step m codec position c =
    match c.opcode? with
    | none | some .groupStart | some .newTexture => (.ok (), d)
    | some .selectNull => (.ok (), { d with state := d.state.selectNull })
    | some .bindTexture => (.ok (), d.bindTexture m position c)
    | some .setTile => (.ok (), d.setTile c.tile)
    | some .loadPalette => (.ok (), d.loadPalette m position c)
    | some .setScale => (.ok (), { d with state := d.state.setScales c.operand })
    | some .loadVertices => (.ok (), d.loadVertices m codec position c)
    | some .drawTriangle => d.drawFaces m position .drawTriangle [c.triangle]
    | some .drawQuad => d.drawFaces m position .drawQuad [c.firstTriangle, c.triangle] := by
  unfold step stepBy
  split <;> rfl

variable (limit : Nat) (rest : List Command)

@[simp] theorem runFrom_nil : runFrom m codec limit position [] d = (.ok (), d) := rfl

theorem runFrom_cons : runFrom m codec limit position (c :: rest) d =
    if limit ≤ position then (.error (.commandLimitExceeded limit), d)
    else
      match d.step m codec position c with
      | (.error e, d) => (.error e, d)
      | (.ok (), d) => runFrom m codec limit (position + 1) rest d := by
  unfold runFrom
  rw [runFromBy]
  split
  · rfl
  · rw [Id.run_bind, ← step]
    split <;> rfl

theorem run_eq : run m codec limit d =
    match runFrom m codec limit 0 m.commands.toList d with
    | (.error e, d) => ⟨.error e, d.journal⟩
    | (.ok (), d) => ⟨.ok (d.finish m), (d.finish m).journal⟩ := by
  unfold run runBy
  rw [Id.run_bind, ← runFrom]
  split <;> rfl

end Equations

end Decoder

end DisplayList

import DisplayList.Decoder

/-!
# What one command does

Each handler is described once, part by part: what it leaves in the drawing state, in
the texture table, in the recording and in the journal. `step_effect` then names
the few things that a command can come to, whatever its bytes are, so that an
invariant needs one case for each of them and none for the opcodes.
-/
namespace DisplayList.Decoder

variable (m : Model) (codec : Codec) (d : Decoder) (position : Nat) (c : Command)

@[simp] theorem record_state (j : Journal) : (d.record j).state = d.state := rfl

@[simp] theorem record_table (j : Journal) : (d.record j).table = d.table := rfl

@[simp] theorem record_recording (j : Journal) : (d.record j).recording = d.recording := rfl

@[simp] theorem record_journal (j : Journal) : (d.record j).journal = d.journal ++ j := by
  simp [record, journal]

@[simp] theorem record_diagnostics (j : Journal) :
    (d.record j).diagnostics = d.diagnostics ++ j.diagnostics := by
  simp [diagnostics]

/-! ### Binding a texture -/

@[simp] theorem bindWith_state (tile : Option Tile) :
    (d.bindWith tile position c).state =
      (tile.elim d.state d.state.applyTile).bindTexture (d.table.select position c).2.1 := rfl

@[simp] theorem bindWith_table (tile : Option Tile) :
    (d.bindWith tile position c).table =
      (d.table.bind position c tile (tile.elim d.state d.state.applyTile).sScale
        (tile.elim d.state d.state.applyTile).tScale).1 := rfl

@[simp] theorem bindWith_recording (tile : Option Tile) :
    (d.bindWith tile position c).recording = d.recording := rfl

@[simp] theorem bindWith_journal (tile : Option Tile) :
    (d.bindWith tile position c).journal =
      d.journal ++ (d.table.select position c).2.2 := by
  simp [bindWith_eq, journal, TextureTable.bind_eq]

@[simp] theorem setTile_journal (tile : Tile) : (d.setTile tile).journal = d.journal := rfl

/-! ### Loading a palette -/

@[simp] theorem loadPalette_state :
    (d.loadPalette m position c).state =
      if marksTexture m position then d.state.markTexture else d.state := rfl

@[simp] theorem loadPalette_table :
    (d.loadPalette m position c).table =
      (d.table.loadPalette m.textureData position d.state.texture
        (Command.paletteLength c.operand)).1 := rfl

@[simp] theorem loadPalette_recording :
    (d.loadPalette m position c).recording = d.recording := rfl

@[simp] theorem loadPalette_journal :
    (d.loadPalette m position c).journal = d.journal ++
      (d.table.loadPalette m.textureData position d.state.texture
        (Command.paletteLength c.operand)).2 := by
  simp [loadPalette_eq, journal]

/-! ### Loading vertices -/

/-- The decoder with its window loaded and no batch opened yet. -/
def loadWindow : Decoder :=
  let load := c.vertexLoad
  let (window, skipped) := d.state.settle.window.load load.start load.count load.base
    m.vertices.size d.state.settle.epoch
  { d with
    state := { d.state.settle with window }
    entries := d.entries.appendList
      (skipped.map fun skip => Entry.problem (skip.diagnostic position)) }

/-- The table, the place of the material and the notes with which a batch is opened. -/
def takeMaterial : Boundary → TextureTable × Option Nat × Journal
  | .null => (d.table, some Material.nullIndex, [])
  | .texture =>
    d.table.materialFor codec m.textureData d.state.texture d.state.wrapS d.state.wrapT

theorem loadVertices_eq : d.loadVertices m codec position c =
    d.state.boundary?.elim (d.loadWindow m position c)
      ((d.loadWindow m position c).openBatch m codec) := rfl

@[simp] theorem loadWindow_state : (d.loadWindow m position c).state =
    { d.state.settle with
      window := (d.state.window.load c.vertexLoad.start c.vertexLoad.count c.vertexLoad.base
        m.vertices.size d.state.settle.epoch).1 } := rfl

@[simp] theorem loadWindow_table : (d.loadWindow m position c).table = d.table := rfl

@[simp] theorem loadWindow_recording :
    (d.loadWindow m position c).recording = d.recording := rfl

@[simp] theorem loadWindow_journal : (d.loadWindow m position c).journal = d.journal ++
    (d.state.window.load c.vertexLoad.start c.vertexLoad.count c.vertexLoad.base
      m.vertices.size d.state.settle.epoch).2.map
        fun skip => Entry.problem (skip.diagnostic position) := by
  simp [loadWindow, journal, DrawState.settle_eq]

@[simp] theorem takeMaterial_loadWindow (b : Boundary) :
    (d.loadWindow m position c).takeMaterial m codec b = d.takeMaterial m codec b := by
  cases b <;> rfl

theorem openBatch_eq (b : Boundary) : d.openBatch m codec b =
    ⟨d.state, (d.takeMaterial m codec b).1,
      d.recording.openBatch ((d.takeMaterial m codec b).2.1.getD Material.nullIndex) d.state.epoch,
      (d.entries.appendList (d.takeMaterial m codec b).2.2).push
        (.note (.batchOpened d.recording.batches.size
          ((d.takeMaterial m codec b).2.1.getD Material.nullIndex) d.state.epoch))⟩ := by
  cases b <;> rfl

@[simp] theorem openBatch_state (b : Boundary) : (d.openBatch m codec b).state = d.state := by
  rw [openBatch_eq]

@[simp] theorem openBatch_table (b : Boundary) :
    (d.openBatch m codec b).table = (d.takeMaterial m codec b).1 := by
  rw [openBatch_eq]

@[simp] theorem openBatch_recording (b : Boundary) : (d.openBatch m codec b).recording =
    d.recording.openBatch ((d.takeMaterial m codec b).2.1.getD Material.nullIndex)
      d.state.epoch := by
  rw [openBatch_eq]

@[simp] theorem openBatch_journal (b : Boundary) : (d.openBatch m codec b).journal =
    d.journal ++ (d.takeMaterial m codec b).2.2 ++
      [.note (.batchOpened d.recording.batches.size
        ((d.takeMaterial m codec b).2.1.getD Material.nullIndex) d.state.epoch)] := by
  simp [openBatch_eq, journal]

@[simp] theorem loadVertices_state :
    (d.loadVertices m codec position c).state = (d.loadWindow m position c).state := by
  rw [loadVertices_eq]
  cases d.state.boundary? <;> rfl

@[simp] theorem loadVertices_table : (d.loadVertices m codec position c).table =
    d.state.boundary?.elim d.table fun b => (d.takeMaterial m codec b).1 := by
  rw [loadVertices_eq]
  cases d.state.boundary? <;> simp

@[simp] theorem loadVertices_recording : (d.loadVertices m codec position c).recording =
    d.state.boundary?.elim d.recording fun b =>
      d.recording.openBatch ((d.takeMaterial m codec b).2.1.getD Material.nullIndex)
        d.state.settle.epoch := by
  rw [loadVertices_eq]
  cases d.state.boundary? <;> simp

theorem loadVertices_diagnostics : (d.loadVertices m codec position c).diagnostics =
    d.diagnostics ++
      (d.state.window.load c.vertexLoad.start c.vertexLoad.count c.vertexLoad.base
        m.vertices.size d.state.settle.epoch).2.map (SkippedSlot.diagnostic position) ++
      d.state.boundary?.elim [] fun b => (d.takeMaterial m codec b).2.2.diagnostics := by
  have hmap (skips : List SkippedSlot) : Journal.diagnostics
      (skips.map fun skip => Entry.problem (skip.diagnostic position)) =
      skips.map (SkippedSlot.diagnostic position) := by
    induction skips with
    | nil => rfl
    | cons skip skips ih => simp [ih]
  rw [loadVertices_eq]
  cases d.state.boundary? <;> simp [diagnostics, hmap]

/-! ### Drawing faces -/

variable {d} {epoch : UInt32} {slots : Triangle Nat}

theorem drawTriangle_of_ok {vertices : Triangle UInt32}
    (h : d.state.window.resolveTriangle epoch slots = .ok vertices) :
    drawTriangle m position epoch d slots =
      { d with recording := d.recording.addTriangle vertices (vertices.map fun v =>
          (Model.vertexAt m.vertices v.toNat).uv.scaleBy (d.table.ratio d.state.texture)) } := by
  simp [drawTriangle_eq, h]

theorem drawTriangle_of_error {slot : Nat} {fault : SlotFault}
    (h : d.state.window.resolveTriangle epoch slots = .error (slot, fault)) :
    drawTriangle m position epoch d slots =
      d.record [.problem (.unresolvedSlot position slot fault)] := by
  simp [drawTriangle_eq, h]

variable (d epoch slots)

@[simp] theorem drawTriangle_state : (drawTriangle m position epoch d slots).state = d.state := by
  rw [drawTriangle_eq]
  split <;> rfl

@[simp] theorem drawTriangle_table : (drawTriangle m position epoch d slots).table = d.table := by
  rw [drawTriangle_eq]
  split <;> rfl

variable (faces : List (Triangle Nat))

@[simp] theorem foldl_drawTriangle_state :
    (faces.foldl (drawTriangle m position epoch) d).state = d.state := by
  induction faces generalizing d with
  | nil => rfl
  | cons slots faces ih => simp [ih]

@[simp] theorem foldl_drawTriangle_table :
    (faces.foldl (drawTriangle m position epoch) d).table = d.table := by
  induction faces generalizing d with
  | nil => rfl
  | cons slots faces ih => simp [ih]

end DisplayList.Decoder

namespace DisplayList.Command

/-- The three slots written doubled from a byte on. -/
def slotsFrom (c : Command) (i : Nat) (h : i + 2 < 8) : Triangle Nat :=
  ⟨c.bytes[i].toNat / 2, c.bytes[i + 1].toNat / 2, c.bytes[i + 2].toNat / 2⟩

/-- The faces of a command, each by its slots: one from byte 5 on for a triangle, and
one from byte 1 on before that for a quad. -/
def faces (c : Command) : List (Triangle Nat) :=
  match c.opcode? with
  | some .drawTriangle => [c.slotsFrom 5 (by decide)]
  | some .drawQuad => [c.slotsFrom 1 (by decide), c.slotsFrom 5 (by decide)]
  | _ => []

theorem faces_ne_nil_iff (c : Command) :
    c.faces ≠ [] ↔ c.opcode? = some .drawTriangle ∨ c.opcode? = some .drawQuad := by
  unfold faces
  split <;> simp_all

theorem ne_load_of_faces {c : Command} (h : c.faces ≠ []) : c.opcode? ≠ some .loadVertices := by
  rcases c.faces_ne_nil_iff.mp h with ho | ho <;> simp [ho]

end DisplayList.Command

namespace DisplayList.Decoder

/-- What a command can come to. -/
inductive Effect (m : Model) (codec : Codec) (d : Decoder) (position : Nat) (c : Command) :
    Decoder → Prop
  /-- The command has no effect of its own. -/
  | idle (h : c.opcode? = none ∨ c.opcode? = some .groupStart ∨ c.opcode? = some .newTexture) :
      Effect m codec d position c d
  | selectNull (h : c.opcode? = some .selectNull) :
      Effect m codec d position c { d with state := d.state.selectNull }
  | bindTexture (h : c.opcode? = some .bindTexture) :
      Effect m codec d position c (d.bindTexture m position c)
  | setTile (h : c.opcode? = some .setTile) :
      Effect m codec d position c (d.setTile c.tile)
  | loadPalette (h : c.opcode? = some .loadPalette) :
      Effect m codec d position c (d.loadPalette m position c)
  | setScale (h : c.opcode? = some .setScale) :
      Effect m codec d position c { d with state := d.state.setScales c.operand }
  | loadVertices (h : c.opcode? = some .loadVertices) :
      Effect m codec d position c (d.loadVertices m codec position c)
  /-- A face without an open batch stops the run. -/
  | stray (h : c.faces ≠ []) (he : d.recording.epoch? = none) : Effect m codec d position c d
  | draw (h : c.faces ≠ []) {epoch : UInt32} (he : d.recording.epoch? = some epoch) :
      Effect m codec d position c (c.faces.foldl (drawTriangle m position epoch) d)

/-- A face command draws its faces in the open batch; without one it fails. -/
theorem step_of_faces (m : Model) (codec : Codec) (d : Decoder) (position : Nat) {c : Command}
    (h : c.faces ≠ []) : ∃ opcode, c.opcode? = some opcode ∧
      d.step m codec position c = d.drawFaces m position opcode c.faces := by
  rcases c.faces_ne_nil_iff.mp h with ho | ho
  · exact ⟨_, ho, by simp only [step_eq, Command.faces, ho]; rfl⟩
  · exact ⟨_, ho, by simp only [step_eq, Command.faces, ho]; rfl⟩

theorem step_effect (m : Model) (codec : Codec) (d : Decoder) (position : Nat) (c : Command) :
    Effect m codec d position c (d.step m codec position c).2 := by
  by_cases hf : c.faces ≠ []
  · obtain ⟨opcode, -, hs⟩ := step_of_faces m codec d position hf
    rw [hs, drawFaces_eq]
    cases he : d.recording.epoch? with
    | none => exact .stray hf he
    | some epoch => exact .draw hf he
  · rw [Command.faces_ne_nil_iff, not_or] at hf
    rw [step_eq]
    split
    · exact .idle (.inl ‹_›)
    · exact .idle (.inr (.inl ‹_›))
    · exact .idle (.inr (.inr ‹_›))
    · exact .selectNull ‹_›
    · exact .bindTexture ‹_›
    · exact .setTile ‹_›
    · exact .loadPalette ‹_›
    · exact .setScale ‹_›
    · exact .loadVertices ‹_›
    · exact absurd ‹_› hf.1
    · exact absurd ‹_› hf.2

/-- Faces are drawn in the open batch; without one nothing happens. -/
theorem Effect.eq_of_faces {m : Model} {codec : Codec} {d d' : Decoder} {position : Nat}
    {c : Command} (h : Effect m codec d position c d') (hf : c.faces ≠ []) :
    d' = d.recording.epoch?.elim d fun epoch =>
      c.faces.foldl (drawTriangle m position epoch) d := by
  have hface := c.faces_ne_nil_iff.mp hf
  cases h with
  | idle h => rcases hface with ho | ho <;> simp [ho] at h
  | selectNull h => rcases hface with ho | ho <;> simp [ho] at h
  | bindTexture h => rcases hface with ho | ho <;> simp [ho] at h
  | setTile h => rcases hface with ho | ho <;> simp [ho] at h
  | loadPalette h => rcases hface with ho | ho <;> simp [ho] at h
  | setScale h => rcases hface with ho | ho <;> simp [ho] at h
  | loadVertices h => rcases hface with ho | ho <;> simp [ho] at h
  | stray _ he => rw [he, Option.elim_none]
  | draw _ he => rw [he, Option.elim_some]

/-- What faces and windows depend on only changes when vertices are loaded or faces drawn. -/
theorem Effect.window_cases {m : Model} {codec : Codec} {d d' : Decoder} {position : Nat}
    {c : Command} (h : Effect m codec d position c d') :
    (c.opcode? ≠ some .loadVertices ∧ d'.state.window = d.state.window ∧
      d'.state.epoch = d.state.epoch ∧ d'.recording = d.recording) ∨
    (c.opcode? = some .loadVertices ∧ d' = d.loadVertices m codec position c) ∨
    (c.faces ≠ [] ∧ ∃ epoch, d.recording.epoch? = some epoch ∧
      d' = c.faces.foldl (drawTriangle m position epoch) d) := by
  cases h with
  | idle h =>
    refine .inl ⟨?_, rfl, rfl, rfl⟩
    rcases h with h | h | h <;> simp [h]
  | selectNull h => exact .inl ⟨by simp [h], rfl, rfl, rfl⟩
  | bindTexture h =>
    refine .inl ⟨by simp [h], ?_, ?_, rfl⟩ <;>
    · simp only [Decoder.bindTexture_eq, bindWith_state]
      cases upcomingTile? m position <;> rfl
  | setTile h => exact .inl ⟨by simp [h], rfl, rfl, rfl⟩
  | loadPalette h =>
    refine .inl ⟨by simp [h], ?_, ?_, rfl⟩ <;>
    · rw [loadPalette_state]
      split <;> rfl
  | setScale h => exact .inl ⟨by simp [h], rfl, rfl, rfl⟩
  | loadVertices h => exact .inr (.inl ⟨h, rfl⟩)
  | stray h => exact .inl ⟨Command.ne_load_of_faces h, rfl, rfl, rfl⟩
  | draw h he => exact .inr (.inr ⟨h, _, he, rfl⟩)

theorem Effect.eq_of_load {m : Model} {codec : Codec} {d d' : Decoder} {position : Nat}
    {c : Command} (h : Effect m codec d position c d') (ho : c.opcode? = some .loadVertices) :
    d' = d.loadVertices m codec position c := by
  rcases h.window_cases with ⟨hne, -⟩ | ⟨-, hd⟩ | ⟨hf, -⟩
  · exact absurd ho hne
  · exact hd
  · exact absurd ho (Command.ne_load_of_faces hf)

/-- Commands that neither load nor draw leave the window and the recording alone. -/
theorem Effect.same_of_quiet {m : Model} {codec : Codec} {d d' : Decoder} {position : Nat}
    {c : Command} (h : Effect m codec d position c d') (ho : c.opcode? ≠ some .loadVertices)
    (hf : c.faces = []) : d'.state.window = d.state.window ∧ d'.state.epoch = d.state.epoch ∧
      d'.recording = d.recording := by
  rcases h.window_cases with ⟨-, hsame⟩ | ⟨hload, -⟩ | ⟨hne, -⟩
  · exact hsame
  · exact absurd hload ho
  · exact absurd hf hne

end DisplayList.Decoder

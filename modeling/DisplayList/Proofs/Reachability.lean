import DisplayList.Proofs.Boundaries
import DisplayList.Proofs.Meshes

/-!
# What holds of every decoder

A decoder can be stepped by hand: any command at any position, also one that the model does
not have there, and also after a step that failed. `Coherent` ties together what such a
decoder holds, and each effect of a command keeps it. The recording of a face relies on
that: it looks its vertices up without a check and takes an open batch for granted. Positions
have no end here; as sizes of 64 bits they leave room for the four commands looked ahead at
only below `2 ^ 64 - 4`.
-/
namespace DisplayList

namespace DrawState

theorem boundary?_isSome_iff {s : DrawState} :
    s.boundary?.isSome ↔ s.textureChanged = true ∨ s.nullSelected = true := by
  unfold boundary?
  cases s.textureChanged <;> cases s.nullSelected <;> simp

end DrawState

namespace Batch

variable {b : Batch}

/-- A batch of whole faces over a store of `vertexCount` vertices, with exact bounds. -/
structure Sound (vertexCount : Nat) (b : Batch) : Prop where
  length_eq : b.vertices.length = b.uvs.length
  whole : 3 ∣ b.vertices.length
  vertex_lt : ∀ v ∈ b.vertices, v.toNat < vertexCount
  lowest_none : b.lowest? = none ↔ b.vertices = []
  highest_none : b.highest? = none ↔ b.vertices = []
  lowest : ∀ v, b.lowest? = some v ↔ v ∈ b.vertices ∧ ∀ w ∈ b.vertices, v ≤ w
  highest : ∀ v, b.highest? = some v ↔ v ∈ b.vertices ∧ ∀ w ∈ b.vertices, w ≤ v

theorem sound_of_vertex_lt {n : Nat} (h : ∀ v ∈ b.vertices, v.toNat < n) : b.Sound n where
  length_eq := by simp
  whole := ⟨b.triangles.size, by simp⟩
  vertex_lt := h
  lowest_none := lowest?_eq_none_iff
  highest_none := highest?_eq_none_iff
  lowest _ := lowest?_eq_some_iff
  highest _ := highest?_eq_some_iff

end Batch

namespace Recording

/-- The corners of all batches take up the pool, one place each and in order. -/
def Numbered (r : Recording) : Prop :=
  r.batches.toList.flatMap Batch.uvs = List.range r.pool.size

theorem Numbered.openBatch {r : Recording} (h : r.Numbered) (material : Nat) (epoch : UInt32) :
    (r.openBatch material epoch).Numbered := by
  simpa [Numbered, Batch.uvs, Batch.corners] using h

theorem Numbered.addTriangle {r : Recording} (h : r.Numbered) {older : List Batch} {b : Batch}
    (hb : r.batches.toList = older ++ [b]) (vertices : Triangle UInt32)
    (uvs : Triangle TexCoord) : (r.addTriangle vertices uvs).Numbered := by
  have hsize : (r.addTriangle vertices uvs).pool.size = r.pool.size + 3 := by
    rw [← Array.length_toList, pool_addTriangle hb]
    simp
  have hrange : List.range (r.pool.size + 3) =
      List.range r.pool.size ++ [r.pool.size, r.pool.size + 1, r.pool.size + 2] := by
    simp [List.range_succ]
  unfold Numbered at h ⊢
  rw [toList_addTriangle hb, hsize, hrange, ← h, hb]
  simp

end Recording

namespace Decoder

variable {m : Model} {codec : Codec} {d d' : Decoder} {n position : Nat} {c : Command}

/-- The decoders that `n` steps can lead to. -/
inductive Reached (m : Model) (codec : Codec) : Nat → Decoder → Prop
  | start : Reached m codec 0 (Decoder.start m)
  | step {n : Nat} {d : Decoder} (h : Reached m codec n d) (position : Nat) (c : Command) :
      Reached m codec (n + 1) (d.step m codec position c).2

/-- What each effect of a command keeps holds of every reachable decoder. -/
theorem Reached.induction {P : Decoder → Prop} (h : Reached m codec n d)
    (hstart : P (Decoder.start m))
    (heffect : ∀ d position c d', P d → Effect m codec d position c d' → P d') : P d := by
  induction h with
  | start => exact hstart
  | step h position c ih => exact heffect _ _ _ _ ih (step_effect m codec _ position c)

theorem Reached.size_batches_le (h : Reached m codec n d) : d.recording.batches.size ≤ n := by
  induction h with
  | start => simp [Decoder.start]
  | step h position c ih =>
    rw [(step_effect m codec _ position c).size_batches]
    split <;> omega

/-! ### The invariant -/

/-- A change that is due stays due until a load settles it. -/
theorem Effect.boundary?_isSome (h : Effect m codec d position c d')
    (ho : c.opcode? ≠ some .loadVertices) (hb : d.state.boundary?.isSome) :
    d'.state.boundary?.isSome := by
  cases h with
  | idle => exact hb
  | selectNull => rfl
  | bindTexture => rfl
  | setTile => simpa [Decoder.setTile] using hb
  | loadPalette =>
    rw [loadPalette_state]
    split
    · rfl
    · exact hb
  | setScale => simpa using hb
  | loadVertices h => exact absurd h ho
  | stray => exact hb
  | draw => rwa [foldl_drawTriangle_state]

theorem Effect.numbered (h : Effect m codec d position c d') (hd : d.recording.Numbered) :
    d'.recording.Numbered := by
  rcases h.window_cases with ⟨-, -, -, hr⟩ | ⟨-, rfl⟩ | ⟨-, epoch, he, rfl⟩
  · rwa [hr]
  · rw [loadVertices_recording]
    cases d.state.boundary? with
    | none => exact hd
    | some boundary => exact hd.openBatch _ _
  · exact foldl_drawTriangle_induction (P := Recording.Numbered) (by simp [he]) hd
      fun r older b slots vertices hb _ h => h.addTriangle hb _ _

/-- The window only holds vertices of the store, none from an epoch to come. -/
def WindowCurrent (m : Model) (d : Decoder) : Prop :=
  ∀ s e, d.state.window.get? s = some e →
    e.vertex.toNat < m.vertices.size ∧ e.epoch ≤ d.state.epoch

/-- What the parts of a decoder have to do with one another. -/
structure Coherent (m : Model) (d : Decoder) : Prop extends Stamped d where
  due : d.recording.batches = #[] → d.state.textureChanged = true ∨ d.state.nullSelected = true
  window : WindowCurrent m d
  batch_sound : ∀ b ∈ d.recording.batches.toList, b.Sound m.vertices.size
  numbered : d.recording.Numbered

namespace Coherent

theorem start (m : Model) : Coherent m (start m) where
  toStamped := .start m
  due _ := .inr rfl
  window := by simp [WindowCurrent, Decoder.start, DrawState.initial]
  batch_sound := by simp [Decoder.start]
  numbered := rfl

variable (h : Coherent m d) (hsize : d.recording.batches.size + 1 < 2 ^ 32)
  (heffect : Effect m codec d position c d')

include h heffect in
/-- Without a batch a change is due: the load that settles it opens one. -/
theorem due_effect (hnone : d'.recording.batches = #[]) : d'.state.boundary?.isSome := by
  have hempty : d.recording.batches = #[] ∧
      ¬ (c.opcode? = some .loadVertices ∧ d.state.boundary?.isSome) := by
    have hcount := heffect.size_batches
    rw [hnone] at hcount
    split at hcount
    · simp at hcount
    · exact ⟨Array.eq_empty_of_size_eq_zero (by simpa using hcount.symm), ‹_›⟩
  have hdue := DrawState.boundary?_isSome_iff.mpr (h.due hempty.1)
  exact heffect.boundary?_isSome (fun ho => hempty.2 ⟨ho, hdue⟩) hdue

include h hsize heffect in
/-- A load stamps what it writes with the epoch that it may have begun. -/
theorem window_effect : WindowCurrent m d' := by
  rcases heffect.window_cases with ⟨-, hw, he, -⟩ | ⟨-, rfl⟩ | ⟨-, epoch, -, rfl⟩
  · intro s e hs
    rw [he]
    exact h.window s e (hw ▸ hs)
  · have hepoch : d.state.epoch ≤ (d.loadVertices m codec position c).state.epoch := by
      have hafter := (h.toStamped.effect hsize heffect).epoch_eq
      have hcount := heffect.size_batches
      have hbefore := h.epoch_eq
      rw [UInt32.le_iff_toNat_le, hafter, hbefore, hcount]
      omega
    intro s e hs
    by_cases hcovers : c.vertexLoad.Covers s
    · obtain ⟨-, hlt, hvertex, he⟩ := (get?_loadVertices_of_covers hcovers).mp hs
      exact ⟨hvertex ▸ hlt, he ▸ UInt32.le_refl _⟩
    · rw [get?_loadVertices_of_not_covers hcovers] at hs
      obtain ⟨hlt, he⟩ := h.window s e hs
      exact ⟨hlt, UInt32.le_trans he hepoch⟩
  · simpa only [WindowCurrent, foldl_drawTriangle_state] using h.window

include h hsize heffect in
/-- Every effect keeps a decoder coherent while the next epoch fits into a word. -/
theorem effect : Coherent m d' where
  toStamped := h.toStamped.effect hsize heffect
  due hnone := DrawState.boundary?_isSome_iff.mp (h.due_effect heffect hnone)
  window := h.window_effect hsize heffect
  batch_sound := by
    have hvertices := heffect.vertices_forall (P := fun v => v.toNat < m.vertices.size)
      (fun s e hs => (h.window s e hs).1) fun b hb => (h.batch_sound b hb).vertex_lt
    exact fun b hb => Batch.sound_of_vertex_lt (hvertices b hb)
  numbered := heffect.numbered h.numbered

end Coherent

theorem Reached.coherent (h : Reached m codec n d) (hn : n < 2 ^ 32) : Coherent m d := by
  induction h with
  | start => exact .start m
  | step h position c ih =>
    have hsize := h.size_batches_le
    exact (ih (by omega)).effect (by omega) (step_effect m codec _ position c)

/-! ### Faces recorded with every check -/

/-- What the recording of a face could meet with. -/
inductive FaceFailure
  | missingVertex (vertex : UInt32)
  | noBatch
  deriving DecidableEq, Repr

/-- The scaled coordinates of a vertex, which must be in the store. -/
def coordinates (m : Model) (ratio : TexCoord) (v : UInt32) : Except FaceFailure TexCoord :=
  match m.vertices[v.toNat]? with
  | none => .error (.missingVertex v)
  | some vertex => .ok (vertex.uv.scaleBy ratio)

/-- Draws a face like `drawTriangle`, but fails if a vertex is missing or no batch is open. -/
def drawChecked (m : Model) (position : Nat) (epoch : UInt32) (d : Decoder)
    (slots : Triangle Nat) : Except FaceFailure Decoder :=
  match d.state.window.resolveTriangle epoch slots with
  | .error (slot, fault) => .ok (d.record [.problem (.unresolvedSlot position slot fault)])
  | .ok vertices => do
    let uvs ← vertices.mapM (coordinates m (d.table.ratio d.state.texture))
    match d.recording.current? with
    | none => .error .noBatch
    | some _ => .ok { d with recording := d.recording.addTriangle vertices uvs }

/-- In a coherent decoder with an open batch no check fails. -/
theorem drawChecked_eq {epoch : UInt32} (hwindow : WindowCurrent m d)
    (hopen : d.recording.epoch?.isSome) (slots : Triangle Nat) :
    drawChecked m position epoch d slots = .ok (drawTriangle m position epoch d slots) := by
  rw [drawChecked, drawTriangle_eq]
  cases hr : d.state.window.resolveTriangle epoch slots with
  | error fault => rfl
  | ok vertices =>
    have huvs : vertices.mapM (coordinates m (d.table.ratio d.state.texture)) =
        .ok (vertices.map fun v =>
          (Model.vertexAt m.vertices v.toNat).uv.scaleBy (d.table.ratio d.state.texture)) := by
      rw [Triangle.mapM_eq_ok_iff, Triangle.toList_map, List.forall₂_map_right_iff,
        List.forall₂_same]
      intro v hv
      obtain ⟨s, hs⟩ := VertexWindow.exists_get?_of_resolveTriangle hr hv
      have hlt := (hwindow s _ hs).1
      simp [coordinates, Model.vertexAt, hlt]
    obtain ⟨b, hb⟩ : ∃ b, d.recording.current? = some b := by
      simpa [Recording.epoch?, Option.isSome_iff_exists] using hopen
    simp only [huvs, hb]
    rfl

theorem foldlM_drawChecked_eq {epoch : UInt32} (hwindow : WindowCurrent m d)
    (hopen : d.recording.epoch?.isSome) (faces : List (Triangle Nat)) :
    faces.foldlM (drawChecked m position epoch) d =
      .ok (faces.foldl (drawTriangle m position epoch) d) := by
  induction faces generalizing d with
  | nil => rfl
  | cons slots faces ih =>
    rw [List.foldlM_cons, drawChecked_eq hwindow hopen]
    apply ih
    · simpa only [WindowCurrent, drawTriangle_state] using hwindow
    · have hstill : ([slots].foldl (drawTriangle m position epoch) d).recording.epoch?.isSome :=
        foldl_drawTriangle_induction (P := fun r => r.epoch?.isSome) hopen hopen
          fun r older b _ vertices hb _ _ => by simp [Recording.epoch?_addTriangle hb]
      exact hstill

/-- Fewer than `2 ^ 32` steps, whatever they are, lead to a coherent decoder; and from there a
face command that finds a batch open is carried out without a check failing. -/
theorem coherent_of_reached (m : Model) (codec : Codec) (n : Nat) (d : Decoder)
    (h : Reached m codec n d) (hn : n < 2 ^ 32) :
    Coherent m d ∧ ∀ position c epoch,
      (c.opcode? = some .drawTriangle ∨ c.opcode? = some .drawQuad) →
      d.recording.epoch? = some epoch →
      ∃ d', d.step m codec position c = (.ok (), d') ∧
        c.faces.foldlM (drawChecked m position epoch) d = .ok d' := by
  have hd := h.coherent hn
  refine ⟨hd, fun position c epoch hface he => ?_⟩
  obtain ⟨opcode, -, hstep⟩ := step_of_faces m codec d position (c.faces_ne_nil_iff.mpr hface)
  refine ⟨_, ?_, foldlM_drawChecked_eq hd.window (by simp [he]) c.faces⟩
  rw [hstep, drawFaces_eq, he]

/-- A face that fails for want of a batch, at a position past the end, and then a load. -/
def sampleStray : Model where
  vertices := .replicate 3 {}

theorem coherent_of_reached_stray :
    ∃ d, Reached sampleStray .packed 2 d ∧ 2 < 2 ^ 32 ∧ d.recording.epoch? = some 1 ∧
      Coherent sampleStray d ∧
      ∃ d', d.step sampleStray .packed 7 (.ofFields 191 0 0 0 0x204) = (.ok (), d') ∧
        (Command.ofFields 191 0 0 0 0x204).faces.foldlM (drawChecked sampleStray 7 1) d = .ok d' :=
  have hreached := (Reached.start.step 5 (.ofFields 191 0 0 0 0x204)).step 0 (.ofFields 4 0 12 0 0)
  have hcoherent := coherent_of_reached sampleStray .packed 2 _ hreached (by decide)
  ⟨_, hreached, by decide, rfl, hcoherent.1, hcoherent.2 7 _ 1 (.inl rfl) rfl⟩

end Decoder

end DisplayList

import DisplayList.Assembly
import DisplayList.Proofs.Table
import DisplayList.Proofs.WindowLoad

/-!
# What is reported about geometry

Slots that hold no vertex and batches that reach back are reported whatever the textures are.
Which of these reports a command makes is read off the window, the open batch and the command;
all other commands than loads and faces make none.
-/
namespace DisplayList

/-- Whether problems of a kind are about slots and batches, and not about textures. -/
def Diagnostic.Kind.isGeometric : Kind → Bool
  | indexOverflow | slotOutOfWindow | unresolvedSlot | nonMonotonicBatch => true
  | paletteOutOfRange | unknownTexture | textureDecode => false

namespace Diagnostic

/-- The problems that are about slots and batches. -/
def geometric (ds : List Diagnostic) : List Diagnostic :=
  ds.filter fun d => d.kind.isGeometric

@[simp] theorem geometric_append (ds es : List Diagnostic) :
    geometric (ds ++ es) = geometric ds ++ geometric es :=
  List.filter_append ..

variable {ds : List Diagnostic}

theorem geometric_eq_self (h : ∀ e ∈ ds, e.kind.isGeometric = true) : geometric ds = ds :=
  List.filter_eq_self.mpr h

theorem geometric_eq_nil (h : ∀ e ∈ ds, e.kind.isGeometric = false) : geometric ds = [] :=
  List.filter_eq_nil_iff.mpr (by simpa using h)

@[simp] theorem countOf_append (ds es : List Diagnostic) (k : Kind) :
    countOf (ds ++ es) k = countOf ds k + countOf es k :=
  List.countP_append

/-- Problems about geometry are counted among those about geometry. -/
theorem countOf_geometric (ds : List Diagnostic) {k : Kind} (hk : k.isGeometric = true) :
    countOf (geometric ds) k = countOf ds k := by
  rw [countOf, geometric, List.countP_filter, countOf]
  apply List.countP_congr
  intro d _
  by_cases hd : d.kind = k <;> simp [hd, hk]

theorem countOf_eq_zero {k : Kind} (h : ∀ e ∈ ds, e.kind ≠ k) : countOf ds k = 0 :=
  List.countP_eq_zero.mpr (by simpa using h)

theorem countOf_eq_length {k : Kind} (h : ∀ e ∈ ds, e.kind = k) : countOf ds k = ds.length :=
  List.countP_eq_length.mpr (by simpa using h)

end Diagnostic

/-- The slots that a load leaves without a vertex of the store. -/
def VertexLoad.skips (l : VertexLoad) (vertexCount : Nat) : List SkippedSlot :=
  (List.range l.count).filterMap fun i =>
    VertexWindow.skip? vertexCount (l.start + i) (VertexWindow.nthFrom l.base i)

namespace Decoder

open Diagnostic

variable (m : Model) (d : Decoder) (position : Nat) (c : Command)

/-- What a command reports about slots. -/
def slotReports : List Diagnostic :=
  if c.opcode? = some .loadVertices then
    (c.vertexLoad.skips m.vertices.size).map (SkippedSlot.diagnostic position)
  else
    d.recording.epoch?.elim [] fun epoch =>
      (c.faces.map (d.state.window.resolveTriangle epoch)).filterMap (faceProblem? position)

variable {m d position c}

theorem slotReports_of_load (ho : c.opcode? = some .loadVertices) :
    d.slotReports m position c =
      (c.vertexLoad.skips m.vertices.size).map (SkippedSlot.diagnostic position) :=
  if_pos ho

theorem slotReports_of_faces (hf : c.faces ≠ []) {epoch : UInt32}
    (he : d.recording.epoch? = some epoch) : d.slotReports m position c =
      (c.faces.map (d.state.window.resolveTriangle epoch)).filterMap (faceProblem? position) := by
  rw [slotReports, if_neg (Command.ne_load_of_faces hf), he, Option.elim_some]

/-- Commands that neither load nor draw report nothing about slots. -/
theorem slotReports_of_quiet (hf : c.faces = []) (ho : c.opcode? ≠ some .loadVertices) :
    d.slotReports m position c = [] := by
  rw [slotReports, if_neg ho, hf]
  cases d.recording.epoch? <;> rfl

/-- Only loads report anything else about slots than that they are not resolved. -/
theorem kind_of_mem_slotReports_of_not_load {e : Diagnostic}
    (ho : c.opcode? ≠ some .loadVertices) (h : e ∈ d.slotReports m position c) :
    e.kind = .unresolvedSlot := by
  rw [slotReports, if_neg ho] at h
  cases he : d.recording.epoch? with
  | none => simp [he] at h
  | some epoch =>
    rw [he, Option.elim_some] at h
    exact kind_of_mem_faceProblems h

theorem kind_of_mem_slotReports {e : Diagnostic} (h : e ∈ d.slotReports m position c) :
    e.kind = .indexOverflow ∨ e.kind = .slotOutOfWindow ∨ e.kind = .unresolvedSlot := by
  by_cases ho : c.opcode? = some .loadVertices
  · rw [slotReports_of_load ho] at h
    exact (kind_of_mem_skips h).imp_right .inl
  · exact .inr (.inr (kind_of_mem_slotReports_of_not_load ho h))

@[simp] theorem geometric_slotReports :
    geometric (d.slotReports m position c) = d.slotReports m position c :=
  geometric_eq_self fun _ he => by
    rcases kind_of_mem_slotReports he with hk | hk | hk <;> simp [hk, Kind.isGeometric]

theorem loadVertices_geometric (codec : Codec) (ho : c.opcode? = some .loadVertices) :
    geometric (d.loadVertices m codec position c).diagnostics =
      geometric d.diagnostics ++ d.slotReports m position c := by
  have hmaterial : geometric (d.state.boundary?.elim [] fun b =>
      (d.takeMaterial m codec b).2.2.diagnostics) = [] :=
    geometric_eq_nil fun e he => by simp [kind_of_mem_takeMaterial he, Kind.isGeometric]
  have hskips : (d.state.window.load c.vertexLoad.start c.vertexLoad.count c.vertexLoad.base
      m.vertices.size d.state.settle.epoch).2.map (SkippedSlot.diagnostic position) =
      d.slotReports m position c := by
    rw [slotReports_of_load ho, VertexLoad.skips, VertexWindow.load_skipped]
  rw [loadVertices_diagnostics, hskips, geometric_append, geometric_append, hmaterial,
    geometric_slotReports, List.append_nil]

/-- A command adds its own reports about slots to those made before. -/
theorem Effect.geometric_eq {codec : Codec} {d' : Decoder} (h : Effect m codec d position c d') :
    geometric d'.diagnostics = geometric d.diagnostics ++ d.slotReports m position c := by
  have hquiet {o : Opcode} (ho : c.opcode? = some o) (hload : o ≠ .loadVertices)
      (htriangle : o ≠ .drawTriangle) (hquad : o ≠ .drawQuad) :
      d.slotReports m position c = [] := by
    refine slotReports_of_quiet ?_ (by simpa [ho] using hload)
    by_contra hf
    rcases c.faces_ne_nil_iff.mp hf with h | h <;> simp_all
  cases h with
  | idle h =>
    have hnone : d.slotReports m position c = [] := by
      rcases h with h | h | h
      · exact slotReports_of_quiet (by simp [Command.faces, h]) (by simp [h])
      · exact hquiet h (by simp) (by simp) (by simp)
      · exact hquiet h (by simp) (by simp) (by simp)
    rw [hnone, List.append_nil]
  | selectNull h | setTile h | setScale h =>
    rw [hquiet h (by simp) (by simp) (by simp), List.append_nil]
    rfl
  | bindTexture h =>
    have hselect := geometric_eq_nil fun e he => by
      rw [TextureTable.kind_of_mem_select d.table position c he]
      rfl
    rw [hquiet h (by simp) (by simp) (by simp), Decoder.bindTexture_eq, diagnostics,
      bindWith_journal, Journal.diagnostics_append, geometric_append, hselect]
    rfl
  | loadPalette h =>
    have hpalette := geometric_eq_nil fun e he => by
      rw [TextureTable.kind_of_mem_loadPalette d.table m.textureData position d.state.texture
        (Command.paletteLength c.operand) he]
      rfl
    rw [hquiet h (by simp) (by simp) (by simp), diagnostics, loadPalette_journal,
      Journal.diagnostics_append, geometric_append, hpalette]
    rfl
  | loadVertices h => exact loadVertices_geometric codec h
  | stray hf he => simp [slotReports, Command.ne_load_of_faces hf, he]
  | draw hf he =>
    obtain ⟨older, b, hb, -⟩ := (Recording.epoch?_eq_some_iff _).mp he
    obtain ⟨b', -, -, -, -, hdiags⟩ := foldl_drawTriangle m position _ hb c.faces
    rw [hdiags, ← slotReports_of_faces hf he, geometric_append, geometric_slotReports]

/-- Of each kind of problem about geometry a command adds as many as it reports itself. -/
theorem Effect.countOf_eq {codec : Codec} {d' : Decoder} (h : Effect m codec d position c d')
    {k : Kind} (hk : k.isGeometric = true) :
    countOf d'.diagnostics k =
      countOf d.diagnostics k + countOf (d.slotReports m position c) k := by
  rw [← countOf_geometric _ hk, h.geometric_eq, countOf_append, countOf_geometric _ hk]

/-- No command reports that a batch reaches back. -/
theorem Effect.kind_ne {codec : Codec} {d' : Decoder} (h : Effect m codec d position c d')
    (hd : ∀ e ∈ d.diagnostics, e.kind ≠ .nonMonotonicBatch) :
    ∀ e ∈ d'.diagnostics, e.kind ≠ .nonMonotonicBatch := by
  intro e he hk
  have hgeometric : e ∈ geometric d'.diagnostics :=
    List.mem_filter.mpr ⟨he, by simp [hk, Kind.isGeometric]⟩
  rw [h.geometric_eq, List.mem_append] at hgeometric
  rcases hgeometric with hold | hnew
  · exact hd e (List.mem_filter.mp hold).1 hk
  · rcases kind_of_mem_slotReports hnew with hk' | hk' | hk' <;> simp [hk'] at hk

theorem kind_ne_before (m : Model) (codec : Codec) (p : Nat) :
    ∀ e ∈ (before m codec p).diagnostics, e.kind ≠ .nonMonotonicBatch := by
  induction p with
  | zero => simp [start, diagnostics, journal]
  | succ p ih =>
    cases hc : m.commands[p]? with
    | none => rwa [before_succ_of_none hc]
    | some c => exact (effect_before hc).kind_ne ih

end Decoder

/-- The placement of batches reports nothing but batches that reach back. -/
theorem Recording.kind_of_mem_placementJournal {r : Recording} {e : Diagnostic}
    (h : e ∈ r.placementJournal.diagnostics) : e.kind = .nonMonotonicBatch := by
  obtain ⟨entry, hentry, he⟩ := List.mem_filterMap.mp h
  obtain ⟨p, -, hp⟩ := List.mem_filterMap.mp hentry
  unfold PlacedBatch.entry? at hp
  split at hp
  · cases hp
    cases he
  · split at hp <;> cases hp
    cases he
    rfl

end DisplayList

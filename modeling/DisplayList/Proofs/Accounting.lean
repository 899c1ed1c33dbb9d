import DisplayList.Proofs.Failures
import DisplayList.Proofs.Reports
import Mathlib.Algebra.BigOperators.Group.Finset.Basic

/-!
# Every face and every slot is accounted for

A face that a command draws goes into a batch or is reported, and a batch with faces becomes a
mesh with as many of them. In the same way each slot that a load counts is filled or reported.
Nothing is counted twice and nothing is lost, whatever the display list is.
-/
namespace DisplayList

/-- The faces of all batches. -/
def Recording.faces (r : Recording) : List (Triangle Corner) :=
  r.batches.toList.flatMap fun b => b.triangles.toList

@[simp] theorem Recording.faces_openBatch (r : Recording) (material : Nat) (epoch : UInt32) :
    (r.openBatch material epoch).faces = r.faces := by
  simp [faces]

/-- A mesh has the faces of its batch; a batch without a mesh has none. -/
theorem PlacedBatch.size_faces_mesh? (store : Array Vertex) (pool : Array TexCoord)
    (p : PlacedBatch) :
    (p.mesh? store pool).elim 0 (fun mesh => mesh.faces.size) = p.batch.triangles.size := by
  unfold mesh?
  cases hb : p.batch.isEmpty with
  | true =>
    have hnil : p.batch.triangles = #[] := by simpa [Batch.isEmpty] using hb
    simp [hnil]
  | false =>
    obtain ⟨lowest, hlow⟩ := Batch.exists_lowest hb
    obtain ⟨highest, hhigh⟩ := Batch.exists_highest hb
    simp [Mesh.ofBatch_eq_cut hlow hhigh, Mesh.cut]

/-- The meshes of a scene have the faces of all batches. -/
theorem Decoder.faceCount_scene (m : Model) (d : Decoder) :
    (d.scene m).faceCount = d.recording.faces.length := by
  have hplaced (placed : List PlacedBatch) :
      (placed.filterMap (PlacedBatch.mesh? m.vertices d.recording.pool)).foldr
        (fun mesh n => mesh.faces.size + n) 0 =
      ((placed.map PlacedBatch.batch).flatMap fun b => b.triangles.toList).length := by
    induction placed with
    | nil => rfl
    | cons p placed ih =>
      have hp := p.size_faces_mesh? m.vertices d.recording.pool
      rw [List.map_cons, List.flatMap_cons, List.length_append, Array.length_toList, ← ih, ← hp]
      cases hm : p.mesh? m.vertices d.recording.pool <;> simp [hm]
  rw [Scene.faceCount, scene, Recording.meshes, Recording.faces, ← Recording.batches_placed,
    hplaced]

/-- A triangle has one face and a quad two. -/
theorem Command.length_faces (c : Command) : c.faces.length =
    [c].countP (·.opcode? = some .drawTriangle) + 2 * [c].countP (·.opcode? = some .drawQuad) := by
  unfold faces
  split <;> simp_all

namespace Decoder

open Diagnostic

variable {m : Model} {codec : Codec} {d : Decoder} {position p : Nat} {c : Command}
  {epoch : UInt32}

/-! ### Faces -/

theorem length_flatMap_toList {α : Type} (ts : List (Triangle α)) :
    (ts.flatMap Triangle.toList).length = 3 * ts.length := by
  simp [List.length_flatMap, List.map_const', Nat.mul_comm]

/-- Each outcome is a face or a problem. -/
theorem length_outcomes (position : Nat)
    (outcomes : List (Except (Nat × SlotFault) (Triangle UInt32))) :
    (outcomes.filterMap Except.toOption).length +
      (outcomes.filterMap (faceProblem? position)).length = outcomes.length := by
  induction outcomes with
  | nil => rfl
  | cons outcome outcomes ih =>
    cases outcome <;> simp [List.filterMap_cons, Except.toOption, faceProblem?] <;> omega

/-- The faces of a command are drawn or reported. -/
theorem length_faces_foldl_drawTriangle (m : Model) (position : Nat)
    (he : d.recording.epoch? = some epoch) (faces : List (Triangle Nat)) :
    (faces.foldl (drawTriangle m position epoch) d).recording.faces.length +
      ((faces.map (d.state.window.resolveTriangle epoch)).filterMap
        (faceProblem? position)).length = d.recording.faces.length + faces.length := by
  obtain ⟨older, b, hb, -⟩ := (Recording.epoch?_eq_some_iff _).mp he
  obtain ⟨b', hb', -, -, hverts, -⟩ := foldl_drawTriangle m position epoch hb faces
  have hsize := congrArg List.length hverts
  have houtcomes := length_outcomes position (faces.map (d.state.window.resolveTriangle epoch))
  rw [Batch.length_vertices, List.length_append, Batch.length_vertices,
    length_flatMap_toList] at hsize
  rw [List.length_map] at houtcomes
  simp only [Recording.faces, hb, hb', List.flatMap_append, List.flatMap_singleton,
    List.length_append, Array.length_toList]
  omega

/-- A command without faces of its own leaves all faces as they are. -/
theorem Effect.faces_eq {d' : Decoder} (h : Effect m codec d position c d')
    (hf : c.faces = []) : d'.recording.faces = d.recording.faces := by
  rcases h.window_cases with ⟨-, -, -, hr⟩ | ⟨-, rfl⟩ | ⟨hne, -⟩
  · rw [hr]
  · rw [loadVertices_recording]
    cases d.state.boundary? <;> simp
  · exact absurd hf hne

/-- A command that succeeds draws its faces, or reports them, in addition to those before. -/
theorem length_faces_step (hok : (d.step m codec position c).1 = .ok ()) :
    (d.step m codec position c).2.recording.faces.length +
      countOf (d.step m codec position c).2.diagnostics .unresolvedSlot =
    d.recording.faces.length + countOf d.diagnostics .unresolvedSlot + c.faces.length := by
  have heffect := step_effect m codec d position c
  rw [heffect.countOf_eq rfl]
  by_cases hf : c.faces = []
  · have hnone : countOf (d.slotReports m position c) .unresolvedSlot = 0 := by
      refine countOf_eq_zero fun e he => ?_
      by_cases ho : c.opcode? = some .loadVertices
      · rw [slotReports_of_load ho] at he
        rcases kind_of_mem_skips he with hk | hk <;> simp [hk]
      · simp [slotReports_of_quiet hf ho] at he
    rw [heffect.faces_eq hf, hnone, hf, List.length_nil]
    omega
  · cases he : d.recording.epoch? with
    | none => simp [step_result, hf, he] at hok
    | some epoch =>
      have hfaces := length_faces_foldl_drawTriangle m position he c.faces
      rw [heffect.eq_of_faces hf, he, Option.elim_some, slotReports_of_faces hf he,
        countOf_eq_length fun e => kind_of_mem_faceProblems]
      omega

/-- After a run of commands that succeed each of their faces is drawn or reported. -/
theorem length_faces_before (hok : ∀ q c, q < p → m.commands[q]? = some c →
      ((before m codec q).step m codec q c).1 = .ok ()) :
    (before m codec p).recording.faces.length +
      countOf (before m codec p).diagnostics .unresolvedSlot =
    (m.commands.toList.take p).countP (·.opcode? = some .drawTriangle) +
      2 * (m.commands.toList.take p).countP (·.opcode? = some .drawQuad) := by
  induction p with
  | zero => simp [start, Recording.faces, diagnostics, journal, countOf]
  | succ p ih =>
    have hearlier := ih fun q c hq hc => hok q c (by omega) hc
    rw [List.take_add_one, List.countP_append, List.countP_append, Array.getElem?_toList]
    cases hc : m.commands[p]? with
    | none => simpa [before_succ_of_none hc] using hearlier
    | some c =>
      have hstep := length_faces_step (hok p c (by omega) hc)
      rw [c.length_faces] at hstep
      rw [before_succ hc, Option.toList_some]
      omega

/-! ### Slots -/

/-- Each slot of a load holds its vertex or is skipped for one of two reasons. -/
theorem length_eq_skips {α : Type} (f : α → Option SkippedSlot) (position : Nat) (xs : List α) :
    xs.length = xs.countP (fun x => (f x).isNone) +
      countOf ((xs.filterMap f).map (SkippedSlot.diagnostic position)) .indexOverflow +
      countOf ((xs.filterMap f).map (SkippedSlot.diagnostic position)) .slotOutOfWindow := by
  induction xs with
  | nil => rfl
  | cons x xs ih =>
    simp only [List.length_cons, List.countP_cons, List.filterMap_cons]
    cases f x with
    | none => simp; omega
    | some skip => cases skip <;> simp [countOf, SkippedSlot.diagnostic, kind] at ih ⊢ <;> omega

variable (m codec p) in
/-- How many of the slots that a load at `p` covers hold the vertex meant for them when the load
is done. -/
def filled (l : VertexLoad) : Nat :=
  let after := (before m codec (p + 1)).state
  (List.range l.count).countP fun i =>
    after.window.get? (l.start + i) = some ⟨.ofNat (l.base.toNat + i), after.epoch⟩

/-- A slot that a load covers holds its vertex afterwards exactly if it is not skipped. -/
theorem get?_loadVertices_iff_skip? (codec : Codec) {s : Nat} (hs : c.vertexLoad.Covers s) :
    (d.loadVertices m codec p c).state.window.get? s =
        some ⟨.ofNat (c.vertexLoad.vertexFor s), (d.loadVertices m codec p c).state.epoch⟩ ↔
      (VertexWindow.skip? m.vertices.size s
        (VertexWindow.nthFrom c.vertexLoad.base (s - c.vertexLoad.start))).isNone := by
  have hvertex := c.toNat_nthFrom_vertexLoad hs
  have hword : c.vertexLoad.vertexFor s < 2 ^ 32 := by
    have hbase := c.vertexLoad_base_lt
    have hcount := c.vertexLoad_count_lt
    unfold VertexLoad.vertexFor
    unfold VertexLoad.Covers at hs
    omega
  rw [get?_loadVertices_of_covers hs, VertexWindow.skip?, hvertex, UInt32.toNat_ofNat',
    Nat.mod_eq_of_lt hword]
  split_ifs <;> simp <;> omega

/-- The slots filled are those not skipped. -/
theorem filled_eq (codec : Codec) (hc : m.commands[p]? = some c)
    (ho : c.opcode? = some .loadVertices) :
    filled m codec p c.vertexLoad = (List.range c.vertexLoad.count).countP fun i =>
      (VertexWindow.skip? m.vertices.size (c.vertexLoad.start + i)
        (VertexWindow.nthFrom c.vertexLoad.base i)).isNone := by
  unfold filled
  apply List.countP_congr
  intro i hi
  have hcovers : c.vertexLoad.Covers (c.vertexLoad.start + i) := by
    have hlt := List.mem_range.mp hi
    unfold VertexLoad.Covers
    omega
  have hiff := get?_loadVertices_iff_skip? (m := m) (d := before m codec p) (p := p) codec hcovers
  rw [VertexLoad.vertexFor, Nat.add_sub_cancel_left] at hiff
  rw [decide_eq_true_iff, before_succ_of_load hc ho, hiff]

/-- What a command adds to the slots covered by loads it adds to those filled or reported. -/
theorem slots_succ (codec : Codec) (hc : m.commands[p]? = some c) :
    (m.load? p).elim 0 VertexLoad.count + countOf (before m codec p).diagnostics .indexOverflow +
        countOf (before m codec p).diagnostics .slotOutOfWindow =
      (m.load? p).elim 0 (filled m codec p) +
        countOf (before m codec (p + 1)).diagnostics .indexOverflow +
        countOf (before m codec (p + 1)).diagnostics .slotOutOfWindow := by
  have heffect : Effect m codec (before m codec p) p c (before m codec (p + 1)) :=
    effect_before hc
  rw [heffect.countOf_eq rfl, heffect.countOf_eq rfl]
  by_cases ho : c.opcode? = some .loadVertices
  · have hskips := length_eq_skips (fun i => VertexWindow.skip? m.vertices.size
      (c.vertexLoad.start + i) (VertexWindow.nthFrom c.vertexLoad.base i)) p
      (List.range c.vertexLoad.count)
    rw [List.length_range, ← filled_eq codec hc ho] at hskips
    rw [Model.load?_of_load hc ho, slotReports_of_load ho]
    simp only [Option.elim_some, VertexLoad.skips]
    omega
  · have hnone {k : Kind} (hk : k ≠ .unresolvedSlot) :
        countOf ((before m codec p).slotReports m p c) k = 0 :=
      countOf_eq_zero fun e he => by simpa [kind_of_mem_slotReports_of_not_load ho he] using hk.symm
    rw [Model.load?_of_not_load hc ho, hnone (by simp), hnone (by simp)]
    rfl

/-- The slots covered by the loads of a run are those filled and those reported. -/
theorem slots_before (m : Model) (codec : Codec) (p : Nat) :
    ∑ q ∈ Finset.range p, (m.load? q).elim 0 VertexLoad.count =
      ∑ q ∈ Finset.range p, (m.load? q).elim 0 (filled m codec q) +
        countOf (before m codec p).diagnostics .indexOverflow +
        countOf (before m codec p).diagnostics .slotOutOfWindow := by
  induction p with
  | zero => simp [start, diagnostics, journal, countOf]
  | succ p ih =>
    rw [Finset.sum_range_succ, Finset.sum_range_succ, ih]
    cases hc : m.commands[p]? with
    | none => simp [before_succ_of_none hc, Model.load?, hc]
    | some c =>
      have hslots := slots_succ codec hc
      omega

end Decoder

namespace Model

open Diagnostic

/-- The placement of batches adds nothing to what is counted of slots. -/
theorem countOf_decoded (m : Model) (codec : Codec) {k : Kind} (hk : k ≠ .nonMonotonicBatch) :
    countOf (((Decoder.before m codec m.commands.size).finish m).decoded m).diagnostics k =
      countOf (Decoder.before m codec m.commands.size).diagnostics k := by
  have hplaced : countOf ((Decoder.before m codec m.commands.size).finish
      m).recording.placementJournal.diagnostics k = 0 :=
    countOf_eq_zero fun e he => by
      rw [Recording.kind_of_mem_placementJournal he]
      exact hk.symm
  rw [Decoder.decoded, countOf_append, hplaced, Decoder.finish_diagnostics, Nat.add_zero]

/-- Whenever a model is decoded, every triangle of its display list, of which quads have two, is
a face of the scene or is reported, and every slot that its loads cover is filled or reported. -/
theorem triangles_accounted (m : Model) (codec : Codec) (limit : Nat) (out : Decoded)
    (h : (m.decode codec limit).result = .ok out) :
    out.scene.faceCount + countOf out.diagnostics .unresolvedSlot =
      m.commands.toList.countP (·.opcode? = some .drawTriangle) +
        2 * m.commands.toList.countP (·.opcode? = some .drawQuad) ∧
    ∑ p ∈ Finset.range m.commands.size, (m.load? p).elim 0 VertexLoad.count =
      ∑ p ∈ Finset.range m.commands.size, (m.load? p).elim 0 (Decoder.filled m codec p) +
        countOf out.diagnostics .indexOverflow + countOf out.diagnostics .slotOutOfWindow := by
  obtain ⟨r, hr, -⟩ := decode_eq_ok h
  obtain ⟨-, hsteps⟩ := Decoder.run_eq_ok hr
  obtain ⟨-, rfl⟩ := (decode_eq_ok_iff codec).mp h
  have hfaces := Decoder.length_faces_before (p := m.commands.size)
    fun q c _ hc => (hsteps q c hc).2
  rw [List.take_of_length_le (by simp)] at hfaces
  refine ⟨?_, ?_⟩
  · rw [countOf_decoded m codec (by simp), ← hfaces]
    exact congrArg (· + _) (Decoder.faceCount_scene m _)
  · rw [countOf_decoded m codec (by simp), countOf_decoded m codec (by simp)]
    exact Decoder.slots_before m codec m.commands.size

/-- A load over the end of the window, one over the end of the store, and a quad of which one
triangle has a slot without a vertex. -/
def samplePartly : Model where
  vertices := .replicate 4 {}
  commands := #[.ofFields 4 60 16 0 0, .ofFields 4 0 16 0 32, .ofFields 177 0 2 60 0x204,
    .ofFields 191 0 0 0 0x3C3E00]

theorem triangles_accounted_partly :
    ∃ out, (samplePartly.decode .packed 4).result = .ok out ∧
    out.scene.faceCount = 2 ∧ countOf out.diagnostics .unresolvedSlot = 1 ∧
    countOf out.diagnostics .indexOverflow = 2 ∧ countOf out.diagnostics .slotOutOfWindow = 2 ∧
    out.scene.faceCount + countOf out.diagnostics .unresolvedSlot =
      samplePartly.commands.toList.countP (·.opcode? = some .drawTriangle) +
        2 * samplePartly.commands.toList.countP (·.opcode? = some .drawQuad) ∧
    ∑ p ∈ Finset.range samplePartly.commands.size,
        (samplePartly.load? p).elim 0 VertexLoad.count =
      ∑ p ∈ Finset.range samplePartly.commands.size,
          (samplePartly.load? p).elim 0 (Decoder.filled samplePartly .packed p) +
        countOf out.diagnostics .indexOverflow + countOf out.diagnostics .slotOutOfWindow :=
  have hcounts : (samplePartly.decode .packed 4).result.map (fun out =>
      (out.scene.faceCount, countOf out.diagnostics .unresolvedSlot,
        countOf out.diagnostics .indexOverflow, countOf out.diagnostics .slotOutOfWindow)) =
      .ok (2, 1, 2, 2) := by
    decide +kernel
  have ⟨out, hout, heq⟩ := exists_of_map_eq_ok hcounts
  have ⟨hfaces, hunresolved, hoverflow, hwindow⟩ : out.scene.faceCount = 2 ∧
      countOf out.diagnostics .unresolvedSlot = 1 ∧ countOf out.diagnostics .indexOverflow = 2 ∧
      countOf out.diagnostics .slotOutOfWindow = 2 := by
    simpa only [Prod.mk.injEq] using heq
  ⟨out, hout, hfaces, hunresolved, hoverflow, hwindow,
    triangles_accounted samplePartly .packed 4 out hout⟩

end Model

end DisplayList

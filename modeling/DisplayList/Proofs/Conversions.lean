import DisplayList.Conversion
import DisplayList.Proofs.Exporting
import DisplayList.Proofs.Layout
import DisplayList.Proofs.PngFiles

/-!
# What a conversion does to the files

All that can be wrong with the input or with the kind of output comes up before the first file is
touched. After that, directories are made where nothing was, and files are written at the paths
that the report names. Nothing else in the tree is another one afterwards, as long as whatever saves
images keeps to the paths that it is given.
-/
namespace DisplayList

/-! ### Directories that are made -/

namespace FileTree

variable {t t' : FileTree} {p : Path} {l : Location}

/-- Directories may have been made where nothing was; all else is as it was. -/
def OnlyMakes (t t' : FileTree) : Prop :=
  ∀ l, t'.get? l = t.get? l ∨ t.get? l = none ∧ t'.get? l = some .directory

namespace OnlyMakes

protected theorem refl (t : FileTree) : t.OnlyMakes t :=
  fun _ => .inl rfl

protected theorem trans {u : FileTree} (h : t.OnlyMakes t') (h' : t'.OnlyMakes u) :
    t.OnlyMakes u := by
  intro l
  rcases h l with hsame | ⟨hnone, hmade⟩
  · rw [← hsame]
    exact h' l
  · rcases h' l with hsame | ⟨hnone', -⟩
    · exact .inr ⟨hnone, hsame.trans hmade⟩
    · rw [hmade] at hnone'
      cases hnone'

end OnlyMakes

theorem onlyMakes_set (h : t.get? l = none) : t.OnlyMakes (t.set l .directory) := by
  intro x
  by_cases hnil : x = []
  · left
    simp [hnil, get?]
  · rw [get?_set _ _ _ _ hnil]
    split_ifs with hx
    · exact .inr ⟨hx ▸ h, rfl⟩
    · exact .inl rfl

theorem onlyMakes_makeDirectory (h : t.makeDirectory p = .ok t') : t.OnlyMakes t' := by
  unfold makeDirectory at h
  cases hlocate : t.locate p with
  | error e => simp [hlocate, bind, Except.bind] at h
  | ok target =>
    cases target with
    | directory l => simp [hlocate, bind, Except.bind, throw, throwThe, MonadExceptOf.throw] at h
    | entry l name slash =>
      cases hnode : t.get? (l ++ [name]) with
      | some node =>
        simp [hlocate, hnode, bind, Except.bind, throw, throwThe, MonadExceptOf.throw] at h
      | none =>
        simp only [hlocate, hnode, bind, Except.bind, pure, Except.pure, Except.ok.injEq] at h
        rw [← h]
        exact onlyMakes_set hnode

/-- Also where it fails in the end, only directories have been made. -/
theorem onlyMakes_makeFirst (ps : List Path) (t : FileTree) : t.OnlyMakes (makeFirst ps t).2 := by
  induction ps generalizing t with
  | nil => exact .refl t
  | cons p above ih =>
    rw [makeFirst]
    split
    · rename_i made hmade
      exact onlyMakes_makeDirectory hmade
    · have habove := ih t
      split
      · rename_i hrest
        rwa [hrest] at habove
      · rename_i hrest
        rw [hrest] at habove
        split
        · rename_i made hmade
          exact habove.trans (onlyMakes_makeDirectory hmade)
        · exact habove
    · exact .refl t

theorem onlyMakes_makeDirectories (t : FileTree) (p : Path) :
    t.OnlyMakes (t.makeDirectories p).2 :=
  onlyMakes_makeFirst p.ancestors t

end FileTree

/-! ### Writing a scene -/

namespace FileAction

/-- What goes wrong with a file is never that the kind of output is not known. -/
theorem ne_unsupported_of_perform {save : ImageSaver} {action : FileAction} {t t' : FileTree}
    {e : ExportError} (h : action.perform save t = (.error e, t')) (p : Path) :
    e ≠ .unsupportedFormat p := by
  rintro rfl
  have hresult := congrArg Prod.fst h
  cases action with
  | makeDirectories directory =>
    simp only [perform] at hresult
    cases hmade : (t.makeDirectories directory).1 <;> simp [hmade, Except.mapError] at hresult
  | saveImage path image =>
    simp only [perform] at hresult
    cases hsaved : (save t path image).1 <;> simp [hsaved, Except.mapError] at hresult
  | saveText path text =>
    simp only [perform] at hresult
    cases hwrite : t.write path (Bytes.ofText text) <;> simp [hwrite] at hresult

end FileAction

namespace Export

variable {save : ImageSaver} {s : Scene} {p : Path} {withImages : Bool} {t : FileTree}

theorem plan_eq_error_iff {e : ExportError} : plan s p withImages = .error e ↔
    ExportFormat.ofPath? p = none ∧ e = .unsupportedFormat p := by
  unfold plan
  cases hformat : ExportFormat.ofPath? p with
  | none => simp [eq_comm]
  | some format =>
    cases format
    simp

theorem ne_unsupported_of_run {steps : List ExportStep} {e : ExportError}
    (h : (run save steps t).1.result = .error e) (p : Path) : e ≠ .unsupportedFormat p := by
  induction steps generalizing t with
  | nil => cases h
  | cons step rest ih =>
    rw [run] at h
    split at h
    · rename_i cause u hperform
      obtain rfl : cause = e := Except.error.inj h
      exact FileAction.ne_unsupported_of_perform hperform p
    · rename_i u hperform
      exact ih h

theorem write_of_plan (save : ImageSaver) (t : FileTree) {steps : List ExportStep}
    (hplan : plan s p withImages = .ok steps) :
    (write t s p withImages save).1.result =
        (run save steps t).1.result.map (fun _ => written steps) ∧
      (write t s p withImages save).2 = (run save steps t).2 := by
  unfold write
  rw [hplan]
  refine ⟨?_, rfl⟩
  simp only [Logged.result_bind, Logged.result_pure]
  cases (run save steps t).1.result <;> rfl

end Export

/-! ### Reading and decoding -/

/-- The input could not be read, loaded or decoded, or the kind of output is not known. -/
def ConversionError.isEarly : ConversionError → Bool
  | unreadable .. | load _ | decode _ | write (.unsupportedFormat _) => true
  | write _ => false

namespace Inspection

variable {t : FileTree} {input : Path} {limit : Nat}

/-- What comes of an inspection: it ends with the reading, the loading or the decoding, or it finds
the model in the file and what that decodes to. -/
theorem ofFile_cases (t : FileTree) (input : Path) (limit : Nat) :
    (∃ e : ConversionError, (ofFile t input limit).result = .error e ∧ e.isEarly) ∨
    ∃ content m decoded, t.read input = .ok content ∧ (Model.load content).result = .ok m ∧
      (m.decode .packed limit).result = .ok decoded ∧
      (ofFile t input limit).result = .ok ⟨m, decoded⟩ := by
  unfold ofFile ofContent readModel
  cases hread : t.read input with
  | error cause => exact .inl ⟨.unreadable input cause, rfl, rfl⟩
  | ok content =>
    simp only [Logged.result_bind, Logged.result_note, Logged.result_mapError, Logged.result_pure]
    cases hload : (Model.load content).result with
    | error cause => exact .inl ⟨.load cause, rfl, rfl⟩
    | ok m =>
      simp only [bind, Except.bind, Except.mapError]
      cases hdecode : (m.decode .packed limit).result with
      | error cause => exact .inl ⟨.decode cause, rfl, rfl⟩
      | ok decoded => exact .inr ⟨content, m, decoded, rfl, hload, hdecode, rfl⟩

theorem isEarly_of_ofFile {t : FileTree} {input : Path} {limit : Nat} {e : ConversionError}
    (h : (ofFile t input limit).result = .error e) : e.isEarly := by
  rcases ofFile_cases t input limit with ⟨e', he', hearly⟩ | ⟨_, _, _, _, _, _, hok⟩
  · obtain rfl : e' = e := Except.error.inj (he'.symm.trans h)
    exact hearly
  · rw [hok] at h
    cases h

end Inspection

namespace Conversion

variable {save : ImageSaver} {c : Conversion} {t : FileTree}

theorem prepare_result (c : Conversion) (content : Except FileError Bytes) :
    (c.prepare content).result = (Inspection.ofContent c.input c.limit content).result.bind
      fun found => ((Export.plan found.decoded.scene c.output c.withImages).mapError
        ConversionError.write).map fun steps => (found.decoded, steps) := by
  unfold prepare
  simp only [Logged.result_bind, Logged.result_note]
  cases (Inspection.ofContent c.input c.limit content).result with
  | error e => rfl
  | ok found =>
    simp only [bind, Except.bind]
    split <;> cases Export.plan found.decoded.scene c.output c.withImages <;> rfl

/-- How far a conversion gets: it ends with the input, with the kind of output, or in writing. -/
theorem run_cases (save : ImageSaver) (c : Conversion) (t : FileTree) :
    (∃ e, (Inspection.ofFile t c.input c.limit).result = .error e ∧
      (c.run t save).1.result = .error e ∧ (c.run t save).2 = t) ∨
    ∃ found, (Inspection.ofFile t c.input c.limit).result = .ok found ∧
      (ExportFormat.ofPath? c.output = none ∧
        (c.run t save).1.result = .error (.write (.unsupportedFormat c.output)) ∧
          (c.run t save).2 = t ∨
      ∃ steps, Export.plan found.decoded.scene c.output c.withImages = .ok steps ∧
        (c.run t save).1.result = ((Export.run save steps t).1.result.map fun _ =>
          report found.decoded steps).mapError .write ∧
        (c.run t save).2 = (Export.run save steps t).2) := by
  have hprepare := c.prepare_result (t.read c.input)
  rw [run]
  cases hfound : (Inspection.ofContent c.input c.limit (t.read c.input)).result with
  | error e =>
    left
    rw [hfound] at hprepare
    refine ⟨e, hfound, ?_⟩
    simp [hprepare, Except.bind]
  | ok found =>
    right
    rw [hfound] at hprepare
    refine ⟨found, hfound, ?_⟩
    cases hplan : Export.plan found.decoded.scene c.output c.withImages with
    | error e =>
      left
      obtain ⟨hformat, rfl⟩ := Export.plan_eq_error_iff.mp hplan
      refine ⟨hformat, ?_⟩
      simp [hprepare, hplan, Except.bind, Except.mapError, Except.map]
    | ok steps =>
      right
      refine ⟨steps, rfl, ?_⟩
      simp [hprepare, hplan, Except.bind, Except.mapError, Except.map]

/-- What goes wrong in writing comes up late. -/
theorem late_of_run {steps : List ExportStep} {cause : ExportError}
    (h : (Export.run save steps t).1.result = .error cause) :
    ¬ (ConversionError.write cause).isEarly := by
  have hne := Export.ne_unsupported_of_run h
  cases cause with
  | unsupportedFormat p => exact absurd rfl (hne p)
  | _ => simp [ConversionError.isEarly]

/-- The early errors are those of an inspection, and that the kind of output is not known. -/
theorem isEarly_iff (save : ImageSaver) (c : Conversion) (t : FileTree) (e : ConversionError) :
    (c.run t save).1.result = .error e ∧ e.isEarly ↔
      (Inspection.ofFile t c.input c.limit).result = .error e ∨
      (∃ found, (Inspection.ofFile t c.input c.limit).result = .ok found) ∧
        ExportFormat.ofPath? c.output = none ∧ e = .write (.unsupportedFormat c.output) := by
  rcases c.run_cases save t with ⟨e', hfound, hrun, -⟩ |
    ⟨found, hfound, ⟨hformat, hrun, -⟩ | ⟨steps, hplan, hrun, -⟩⟩
  · have hearly : e'.isEarly := Inspection.isEarly_of_ofFile hfound
    rw [hfound, hrun]
    simp only [Except.error.injEq, reduceCtorEq, exists_false, false_and, or_false]
    exact ⟨And.left, fun h => ⟨h, h ▸ hearly⟩⟩
  · rw [hfound, hrun]
    simp only [Except.error.injEq, reduceCtorEq, false_or, hformat, true_and]
    exact ⟨fun h => ⟨⟨found, rfl⟩, h.1.symm⟩, fun h => ⟨h.2.symm, h.2 ▸ rfl⟩⟩
  · have hformat : ExportFormat.ofPath? c.output ≠ none := by
      intro hnone
      rw [Export.plan, hnone] at hplan
      cases hplan
    rw [hfound, hrun]
    simp only [reduceCtorEq, hformat, false_and, and_false, or_false, iff_false, not_and]
    cases hdone : (Export.run save steps t).1.result with
    | ok done => simp [Except.map, Except.mapError]
    | error cause =>
      intro h
      obtain rfl : .write cause = e := Except.error.inj h
      exact late_of_run hdone

theorem tree_of_early {e : ConversionError} (h : (c.run t save).1.result = .error e)
    (he : e.isEarly) : (c.run t save).2 = t := by
  rcases c.run_cases save t with ⟨_, _, _, htree⟩ | ⟨_, _, ⟨_, _, htree⟩ | ⟨steps, _, hrun, _⟩⟩
  · exact htree
  · exact htree
  · rw [hrun] at h
    cases hdone : (Export.run save steps t).1.result with
    | ok done => simp [hdone, Except.map, Except.mapError] at h
    | error cause =>
      rw [hdone] at h
      obtain rfl : .write cause = e := Except.error.inj h
      exact absurd he (late_of_run hdone)

/-- A conversion that succeeds is an inspection whose scene could be written. -/
theorem exists_of_run {r : ConversionReport} (h : (c.run t save).1.result = .ok r) :
    ∃ content m decoded, t.read c.input = .ok content ∧ (Model.load content).result = .ok m ∧
      (m.decode .packed c.limit).result = .ok decoded ∧
      (Inspection.ofFile t c.input c.limit).result = .ok ⟨m, decoded⟩ ∧
      ∃ steps, r = report decoded steps ∧
        (Export.write t decoded.scene c.output c.withImages save).1.result =
          .ok (Export.written steps) ∧
        (Export.write t decoded.scene c.output c.withImages save).2 = (c.run t save).2 := by
  rcases c.run_cases save t with ⟨e, -, hrun, -⟩ |
    ⟨found, hfound, ⟨-, hrun, -⟩ | ⟨steps, hplan, hrun, htree⟩⟩
  · rw [hrun] at h
    cases h
  · rw [hrun] at h
    cases h
  · rcases Inspection.ofFile_cases t c.input c.limit with ⟨e, he, -⟩ |
      ⟨content, m, decoded, hread, hload, hdecode, hok⟩
    · rw [hfound] at he
      cases he
    · obtain rfl : found = ⟨m, decoded⟩ := Except.ok.inj (hfound.symm.trans hok)
      refine ⟨content, m, decoded, hread, hload, hdecode, hok, steps, ?_⟩
      obtain ⟨hwrite, hleft⟩ := Export.write_of_plan save t hplan
      rw [hrun] at h
      cases hdone : (Export.run save steps t).1.result with
      | error cause => simp [hdone, Except.map, Except.mapError] at h
      | ok done =>
        rw [hdone] at h hwrite
        exact ⟨(Except.ok.inj h).symm, hwrite, hleft.trans htree.symm⟩

end Conversion

/-! ### The whole conversion -/

/-- A report gives the counts and the problems of what was decoded. -/
structure ConversionReport.Counts (r : ConversionReport) (decoded : Decoded) : Prop where
  meshCount_eq : r.meshCount = decoded.scene.meshes.size
  faceCount_eq : r.faceCount = decoded.scene.faceCount
  materialCount_eq : r.materialCount = decoded.scene.materials.size
  diagnostics_eq : r.diagnostics = decoded.diagnostics

/-- What lies between two trees: files at some paths, all of them there in the end, and directories
made where nothing was. -/
structure FileTree.WritesOnly (t t' : FileTree) (paths : List Path) : Prop where
  changed : ∀ l, t'.get? l ≠ t.get? l → (∃ p ∈ paths, t'.place? p = some l) ∨
    t.get? l = none ∧ t'.get? l = some .directory
  held : ∀ p ∈ paths, ∃ directory name content, t'.Holds p directory name content

theorem Export.writesOnly {save : ImageSaver} {load? : Bytes → Option PixelBuffer}
    (hsave : save.Reliable load?) {s : Scene} {p : Path} {withImages : Bool} {t : FileTree}
    {written : List Path} (hs : s.WellNamed)
    (h : (write t s p withImages save).1.result = .ok written) :
    t.WritesOnly (write t s p withImages save).2 written := by
  obtain ⟨name, stem, extension, u, files, hnames, rfl, hmade, hleaves, hputs⟩ :=
    exists_made_of_write hsave h
  obtain ⟨-, directory, hheld⟩ := filesHeld hnames hs hleaves hputs
  constructor
  · intro l hchanged
    by_cases hplace : ∃ p' ∈ paths s p withImages stem,
        (write t s p withImages save).2.place? p' = some l
    · exact .inl hplace
    · right
      have hkept : (write t s p withImages save).2.get? l = u.get? l := by
        refine hputs.get?_eq fun file hfile hl => hplace ⟨file.1, ?_, hl⟩
        rw [← filterMap_saves, ← map_fst_of_leaves hleaves]
        exact List.mem_map_of_mem hfile
      rw [hkept, ← hmade] at hchanged ⊢
      exact (FileTree.onlyMakes_makeDirectories t _ l).resolve_left hchanged
  · simp only [paths, List.forall_mem_map, List.forall_mem_append, List.forall_mem_cons]
    refine ⟨fun picture hpicture => ?_, ⟨_, _, _, hheld.library⟩, ⟨_, _, _, hheld.scene⟩, by simp⟩
    obtain ⟨content, -, hholds⟩ := hheld.image picture hpicture
    exact ⟨_, _, content, hholds⟩

/-- A conversion that fails before it writes leaves every file and directory as it was, however
images are saved. One that succeeds reports what the model in the input decodes to; if images are
saved reliably, it changes no file but those that it names, which are all there. -/
theorem Conversion.run_touches_only_written (save : ImageSaver) (c : Conversion) (t : FileTree) :
    (∀ e, (c.run t save).1.result = .error e ∧ e.isEarly ↔
      (Inspection.ofFile t c.input c.limit).result = .error e ∨
      (∃ found, (Inspection.ofFile t c.input c.limit).result = .ok found) ∧
        ExportFormat.ofPath? c.output = none ∧ e = .write (.unsupportedFormat c.output)) ∧
    (∀ e, (c.run t save).1.result = .error e → e.isEarly → (c.run t save).2 = t) ∧
    ∀ r, (c.run t save).1.result = .ok r → ∃ content m decoded,
      t.read c.input = .ok content ∧ (Model.load content).result = .ok m ∧
      (m.decode .packed c.limit).result = .ok decoded ∧
      (Inspection.ofFile t c.input c.limit).result = .ok ⟨m, decoded⟩ ∧
      r.Counts decoded ∧
      ∀ load?, save.Reliable load? → t.WritesOnly (c.run t save).2 r.written := by
  refine ⟨c.isEarly_iff save t, fun e h he => tree_of_early h he, fun r h => ?_⟩
  obtain ⟨content, m, decoded, hread, hload, hdecode, hfound, steps, rfl, hwrite, htree⟩ :=
    exists_of_run h
  refine ⟨content, m, decoded, hread, hload, hdecode, hfound, ⟨rfl, rfl, rfl, rfl⟩, ?_⟩
  intro load? hsave
  rw [← htree]
  exact Export.writesOnly hsave (Model.wellNamed_of_decode hdecode) hwrite

/-- A file with one textured face, alone in the working directory. -/
def sampleTree : FileTree :=
  let layout : Container.Layout := {
    vertices := .replicate 3 ⟨0, 0, 0, 0, 0, 0, 255, 255, 255, 255⟩
    textures := [⟨0, .ia8, 0x10, rfl, 0, 1, 1, .replicate 6 0⟩]
    textureData := [255, 255]
    commands := [.ofFields 253 0 0 0 0, .ofFields 4 0 12 0 0, .ofFields 191 0 0 0 0x204]
    textureSetup := 0x20
    displayListSetup := 0x40
    vertexSetup := 0x60
    collisionSetup := 0
    vertices_lt := by decide
    textures_lt := by decide
    textureData_lt := by decide
    commands_lt := by decide
    dataOffset_le := by decide
    displayListSetup_ne := by decide
    vertexSetup_ne := by decide
    of_textureSetup := by decide
    collisionSetup_le := .inl rfl }
  (FileTree.ofHome []).set ["model.bin"] (.file (layout.write (.replicate 0xA8 0)))

/-- Converts the model of the file, to one path or another. -/
def sampleConversion (output : String) : Conversion :=
  ⟨⟨"model.bin"⟩, ⟨output⟩, 3, true⟩

theorem Conversion.run_touches_only_written_sample :
    (∃ r, ((sampleConversion "out/scene.obj").run sampleTree Png.save).1.result = .ok r ∧
      r.faceCount = 1 ∧
      r.written = [⟨"out/scene_tex_0000.png"⟩, ⟨"out/scene.mtl"⟩, ⟨"out/scene.obj"⟩] ∧
      sampleTree.WritesOnly ((sampleConversion "out/scene.obj").run sampleTree Png.save).2
        r.written) ∧
    ∃ e, ((sampleConversion "scene.fbx").run sampleTree Png.save).1.result = .error e ∧
      e.isEarly ∧ ((sampleConversion "scene.fbx").run sampleTree Png.save).2 = sampleTree := by
  constructor
  · have hresult :
        (((sampleConversion "out/scene.obj").run sampleTree Png.save).1.result.toOption.map
          fun r => (r.faceCount, r.written)) =
        some (1, [⟨"out/scene_tex_0000.png"⟩, ⟨"out/scene.mtl"⟩, ⟨"out/scene.obj"⟩]) := by
      decide +kernel
    obtain ⟨r, hr, hcounts⟩ := Option.map_eq_some_iff.mp hresult
    obtain ⟨hfaces, hwritten⟩ := Prod.mk.inj hcounts
    have hok := VertexWindow.toOption_eq_some_iff.mp hr
    obtain ⟨-, -, -, -, -, -, -, -, hwrites⟩ :=
      (run_touches_only_written Png.save (sampleConversion "out/scene.obj") sampleTree).2.2 r hok
    exact ⟨r, hok, hfaces, hwritten, hwrites Png.decode? Png.reliable_save⟩
  · have hresult : ((sampleConversion "scene.fbx").run sampleTree Png.save).1.result =
        .error (.write (.unsupportedFormat ⟨"scene.fbx"⟩)) := by
      decide +kernel
    have hkept := (run_touches_only_written Png.save (sampleConversion "scene.fbx") sampleTree).2.1
    exact ⟨_, hresult, rfl, hkept _ hresult rfl⟩

end DisplayList

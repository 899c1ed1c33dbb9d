import DisplayList.Proofs.FileWriting
import DisplayList.Proofs.Names

/-!
# Writing the files of a scene

A scene is written in steps: the directory, the images, the library of materials and the meshes.
If none of them fails, and if images are saved reliably, the steps put files one after the other.
All of these lie in one directory under names that differ, so that none of them is put in the place
of another one, and each of them can be read back in the end.
-/
namespace DisplayList

/-- The decoded pixels of the texture of a material, with the position of the texture. -/
def Scene.picture? (s : Scene) (m : Material) : Option (Nat × PixelBuffer) :=
  m.texture.bind fun texture => s.textures[texture]?.bind fun t =>
    t.pixels.map fun image => (texture, image)

theorem Scene.texture_of_picture? (s : Scene) {m : Material} {picture : Nat × PixelBuffer}
    (h : s.picture? m = some picture) : m.texture = some picture.1 := by
  obtain ⟨texture, htexture, h⟩ := Option.bind_eq_some_iff.mp h
  obtain ⟨t, -, h⟩ := Option.bind_eq_some_iff.mp h
  obtain ⟨image, -, rfl⟩ := Option.map_eq_some_iff.mp h
  exact htexture

/-! ### Carrying out steps -/

namespace FileAction

/-- The file that an action leaves if it succeeds: a text is there as it was given, and an image can
be read. -/
def Leaves (load? : Bytes → Option PixelBuffer) : FileAction → Path × Bytes → Prop
  | makeDirectories _, _ => False
  | saveImage path image, file => file.1 = path ∧ load? file.2 = some image
  | saveText path text, file => file = (path, Bytes.ofText text)

variable {save : ImageSaver} {load? : Bytes → Option PixelBuffer} {action : FileAction}

theorem leaves_saveImage {path : Path} {image : PixelBuffer} {file : Path × Bytes} :
    (saveImage path image).Leaves load? file ↔ file.1 = path ∧ load? file.2 = some image :=
  .rfl

theorem leaves_saveText {path : Path} {text : String} {file : Path × Bytes} :
    (saveText path text).Leaves load? file ↔ file = (path, Bytes.ofText text) :=
  .rfl

theorem Leaves.saved? {file : Path × Bytes} (h : action.Leaves load? file) :
    action.saved? = some file.1 := by
  cases action with
  | makeDirectories directory => exact h.elim
  | saveImage path image => exact congrArg some h.1.symm
  | saveText path text => exact congrArg (some ∘ Prod.fst) h.symm

theorem puts_of_perform (hsave : save.Reliable load?) {t t' : FileTree}
    (hsaves : action.saved?.isSome) (h : action.perform save t = (.ok (), t')) :
    ∃ file, action.Leaves load? file ∧ t.Puts t' file.1 file.2 := by
  cases action with
  | makeDirectories directory => cases hsaves
  | saveImage path image =>
    have hdone : (save t path image).1 = .ok () := by
      have hresult := congrArg Prod.fst h
      simp only [perform] at hresult
      cases hsaved : (save t path image).1 with
      | ok done => rfl
      | error e => simp [hsaved, Except.mapError] at hresult
    obtain rfl : (save t path image).2 = t' := congrArg Prod.snd h
    obtain ⟨content, hread⟩ := hsave.leavesFile t path image hdone
    exact ⟨(path, content), ⟨rfl, hsave.loads t path image content hdone hread⟩,
      hsave.touchesOnly t path image, hread⟩
  | saveText path text =>
    refine ⟨(path, Bytes.ofText text), rfl, ?_⟩
    simp only [perform] at h
    split at h
    · rename_i written hwrite
      obtain ⟨-, rfl⟩ := Prod.mk.inj h
      exact FileTree.puts_write hwrite
    · cases h

end FileAction

namespace Export

variable {save : ImageSaver} {load? : Bytes → Option PixelBuffer} {s : Scene} {p : Path}
variable {withImages : Bool} {t : FileTree}

theorem run_cons_eq_ok {step : ExportStep} {rest : List ExportStep}
    (h : (run save (step :: rest) t).1.result = .ok ()) :
    ∃ u, step.action.perform save t = (.ok (), u) ∧ (run save rest u).1.result = .ok () ∧
      (run save (step :: rest) t).2 = (run save rest u).2 := by
  simp only [run] at h ⊢
  split at h
  · cases h
  · rename_i u hperform
    simp only [hperform]
    exact ⟨u, rfl, h, rfl⟩

theorem perform_makeDirectories (save : ImageSaver) (t : FileTree) (directory : Path) :
    ((FileAction.makeDirectories directory).perform save t).2 =
      (t.makeDirectories directory).2 := by
  rw [FileAction.perform]

/-- Steps that save files, carried out, put them one after the other. -/
theorem putsAll_of_run (hsave : save.Reliable load?) {steps : List ExportStep}
    (hsaves : ∀ step ∈ steps, step.action.saved?.isSome)
    (h : (run save steps t).1.result = .ok ()) :
    ∃ files, List.Forall₂ (FileAction.Leaves load?) (steps.map ExportStep.action) files ∧
      t.PutsAll files (run save steps t).2 := by
  induction steps generalizing t with
  | nil => exact ⟨[], .nil, .nil t⟩
  | cons step steps ih =>
    rw [List.forall_mem_cons] at hsaves
    obtain ⟨u, hperform, hrun, htree⟩ := run_cons_eq_ok h
    obtain ⟨file, hleaves, hput⟩ := FileAction.puts_of_perform hsave hsaves.1 hperform
    obtain ⟨files, hrest, hputs⟩ := ih hsaves.2 hrun
    rw [htree]
    exact ⟨file :: files, .cons hleaves hrest, .cons hput hputs⟩

theorem map_fst_of_leaves {actions : List FileAction} {files : List (Path × Bytes)}
    (h : List.Forall₂ (FileAction.Leaves load?) actions files) :
    files.map Prod.fst = actions.filterMap FileAction.saved? := by
  induction h with
  | nil => rfl
  | cons hleaves _ ih => rw [List.map_cons, List.filterMap_cons, hleaves.saved?, ih]

/-- Every action has left its file. -/
theorem exists_left {actions : List FileAction} {files : List (Path × Bytes)}
    (h : List.Forall₂ (FileAction.Leaves load?) actions files) :
    ∀ action ∈ actions, ∃ file ∈ files, action.Leaves load? file := by
  induction h with
  | nil => simp
  | cons hleaves _ ih =>
    rw [List.forall_mem_cons]
    refine ⟨⟨_, List.mem_cons_self, hleaves⟩, fun action haction => ?_⟩
    obtain ⟨file, hfile, hleft⟩ := ih action haction
    exact ⟨file, List.mem_cons_of_mem _ hfile, hleft⟩

/-! ### What is written -/

/-- The images that are written with a scene, each with the position of its texture, in the order
of the materials. -/
def pictures (s : Scene) (withImages : Bool) : List (Nat × PixelBuffer) :=
  if withImages then s.materials.toList.filterMap s.picture? else []

/-- The MTL text of a scene. -/
def libraryText (s : Scene) (withImages : Bool) (stem : String) : String :=
  Wavefront.mtlText s.materials.toList (s.materials.toList.map fun m =>
    (imageOf s withImages m).map fun picture => imageName stem picture.1)

theorem imageOf_eq (s : Scene) (withImages : Bool) (m : Material) :
    imageOf s withImages m = if withImages then s.picture? m else none := by
  unfold imageOf Scene.picture?
  cases m.texture with
  | none => simp
  | some texture =>
    cases htexture : s.textures[texture]? with
    | none => simp [htexture]
    | some t => cases withImages <;> cases hpixels : t.pixels <;> simp [htexture, hpixels]

theorem filterMap_imageOf (s : Scene) (withImages : Bool) :
    s.materials.toList.filterMap (imageOf s withImages) = pictures s withImages := by
  have himage : imageOf s withImages = fun m => if withImages then s.picture? m else none :=
    funext (imageOf_eq s withImages)
  cases withImages with
  | true => simp [himage, pictures]
  | false => simp [himage, pictures]

/-- The actions that save the files of a scene, in order. -/
def saves (s : Scene) (p : Path) (withImages : Bool) (stem : String) : List FileAction :=
  (pictures s withImages).map (fun picture =>
    .saveImage (p.beside (imageName stem picture.1)) picture.2) ++
  [.saveText (p.beside (stem ++ ".mtl")) (libraryText s withImages stem),
    .saveText p (Wavefront.objText s (stem ++ ".mtl"))]

/-- The paths that the files of a scene are saved at. -/
def paths (s : Scene) (p : Path) (withImages : Bool) (stem : String) : List Path :=
  (pictures s withImages).map (fun picture => p.beside (imageName stem picture.1)) ++
    [p.beside (stem ++ ".mtl"), p]

theorem saved?_saves (s : Scene) (p : Path) (withImages : Bool) (stem : String) :
    (saves s p withImages stem).map FileAction.saved? = (paths s p withImages stem).map some := by
  simp only [saves, paths, List.map_append, List.map_map]
  rfl

theorem filterMap_saves (s : Scene) (p : Path) (withImages : Bool) (stem : String) :
    (saves s p withImages stem).filterMap FileAction.saved? = paths s p withImages stem := by
  have hsaved := congrArg (List.filterMap id) (saved?_saves s p withImages stem)
  rw [List.filterMap_map, List.filterMap_map] at hsaved
  exact hsaved.trans List.filterMap_some

/-- A path leads to the name of an OBJ file. -/
structure Names (p : Path) (name stem extension : String) : Prop where
  name_eq : p.name? = some name
  split_eq : Path.splitName name = (stem, some extension)
  lower_eq : extension.toList.map Char.toLower = ['o', 'b', 'j']

theorem Names.stem_eq {name stem extension : String} (h : Names p name stem extension) :
    p.stem? = some stem := by
  rw [Path.stem?, h.name_eq, Option.map_some, h.split_eq]

theorem exists_names (h : ExportFormat.ofPath? p = some .obj) :
    ∃ name stem extension, Names p name stem extension := by
  obtain ⟨extension, hextension, hlower⟩ := Option.bind_eq_some_iff.mp h
  obtain ⟨name, hname, hsplit⟩ := Option.bind_eq_some_iff.mp hextension
  refine ⟨name, (Path.splitName name).1, extension, hname, Prod.ext rfl hsplit, ?_⟩
  by_contra hne
  rw [if_neg hne] at hlower
  cases hlower

/-- After the directory there is a step for each file. -/
theorem objSteps_eq (s : Scene) (withImages : Bool) {stem : String} (hstem : p.stem? = some stem) :
    ∃ steps, objSteps s p withImages =
      { action := .makeDirectories (p.parent?.getD ⟨""⟩) } :: steps ∧
    steps.map ExportStep.action = saves s p withImages stem := by
  have himages : (s.materials.toList.map (imageOf s withImages)).filterMap id =
      pictures s withImages := by
    rw [List.filterMap_map, ← filterMap_imageOf]
    rfl
  simp only [objSteps, himages, hstem, Option.getD_some, List.map_map, List.cons_append]
  refine ⟨_, rfl, ?_⟩
  simp only [saves, List.map_append, List.map_map]
  rfl

section Saves

variable {stem : String} {steps : List ExportStep}
  (hactions : steps.map ExportStep.action = saves s p withImages stem)

include hactions

theorem written_eq_paths : Export.written steps = paths s p withImages stem := by
  rw [← filterMap_saves, ← hactions, List.filterMap_map]
  rfl

theorem isSome_saved? : ∀ step ∈ steps, step.action.saved?.isSome := by
  intro step hstep
  have hmem : step.action.saved? ∈ (paths s p withImages stem).map some := by
    rw [← saved?_saves, ← hactions, List.map_map]
    exact List.mem_map_of_mem hstep
  obtain ⟨path, -, hpath⟩ := List.mem_map.mp hmem
  rw [← hpath]
  rfl

end Saves

/-- A scene that could be written left its files behind once its directory was made. -/
theorem exists_made_of_write (hsave : save.Reliable load?) {written : List Path}
    (h : (write t s p withImages save).1.result = .ok written) :
    ∃ (name stem extension : String) (u : FileTree) (files : List (Path × Bytes)),
      Names p name stem extension ∧ written = paths s p withImages stem ∧
      (t.makeDirectories (p.parent?.getD ⟨""⟩)).2 = u ∧
      List.Forall₂ (FileAction.Leaves load?) (saves s p withImages stem) files ∧
      u.PutsAll files (write t s p withImages save).2 := by
  cases hformat : ExportFormat.ofPath? p with
  | none => simp [write, plan, hformat] at h
  | some format =>
    cases format
    obtain ⟨name, stem, extension, hnames⟩ := exists_names hformat
    obtain ⟨steps, hsteps, hactions⟩ := objSteps_eq s withImages hnames.stem_eq
    simp only [write, plan, hformat, hsteps, Logged.result_bind, Logged.result_pure] at h ⊢
    cases hrun : (run save ({ action := .makeDirectories (p.parent?.getD ⟨""⟩) } :: steps)
        t).1.result with
    | error e =>
      rw [hrun] at h
      cases h
    | ok done =>
      rw [hrun] at h
      obtain ⟨u, hmade, hrest, htree⟩ := run_cons_eq_ok hrun
      have hwritten : Export.written steps = written := Except.ok.inj h
      have hdirectories : (t.makeDirectories (p.parent?.getD ⟨""⟩)).2 = u := by
        rw [← perform_makeDirectories save, hmade]
      obtain ⟨files, hleaves, hputs⟩ := putsAll_of_run hsave (isSome_saved? hactions) hrest
      rw [hactions] at hleaves
      rw [htree]
      exact ⟨name, stem, extension, u, files, hnames,
        hwritten.symm.trans (written_eq_paths hactions), hdirectories, hleaves, hputs⟩

/-! ### Names and places -/

/-- No two pictures are of one texture. -/
theorem nodup_pictures (hs : s.WellNamed) (withImages : Bool) :
    ((pictures s withImages).map Prod.fst).Nodup := by
  unfold pictures
  split
  · have htextures := hs.textures_nodup
    rw [List.Nodup, List.pairwise_filterMap] at htextures
    rw [List.Nodup, List.pairwise_map, List.pairwise_filterMap]
    refine htextures.imp fun hne x hx y hy => ?_
    exact hne x.1 (s.texture_of_picture? hx) y.1 (s.texture_of_picture? hy)
  · exact List.nodup_nil

/-- The names of the files of a scene. -/
def fileNames (s : Scene) (withImages : Bool) (stem name : String) : List String :=
  (pictures s withImages).map (fun picture => imageName stem picture.1) ++ [stem ++ ".mtl", name]

namespace Names

variable {name stem extension : String}

theorem name_ne (h : Names p name stem extension) {other suffix : String}
    (hother : (Path.splitName other).2 = some suffix)
    (hsuffix : suffix.toList.map Char.toLower ≠ ['o', 'b', 'j']) : name ≠ other := by
  rintro rfl
  rw [h.split_eq] at hother
  obtain rfl := Option.some.inj hother
  exact hsuffix h.lower_eq

theorem stem_ne (h : Names p name stem extension) : stem ≠ "" :=
  (Path.eq_of_splitName h.split_eq).2

theorem splitName_library (h : Names p name stem extension) :
    Path.splitName (stem ++ ".mtl") = (stem, some "mtl") := by
  have htext : stem ++ ".mtl" = stem ++ "." ++ "mtl" := by
    rw [String.append_assoc]
    rfl
  rw [htext, Path.splitName_extension h.stem_ne (by simp)]

theorem splitName_imageName (stem : String) (texture : Nat) :
    (Path.splitName (imageName stem texture)).2 = some "png" := by
  have htext : imageName stem texture =
      stem ++ "_tex_" ++ Numeral.decimal 4 texture ++ "." ++ "png" := by
    unfold imageName
    generalize stem ++ "_tex_" ++ Numeral.decimal 4 texture = before
    rw [String.append_assoc]
    rfl
  have hne : stem ++ "_tex_" ++ Numeral.decimal 4 texture ≠ "" := by
    intro hempty
    have hlists := congrArg String.toList hempty
    rw [String.toList_append, String.toList_append, String.toList_empty, List.append_eq_nil_iff,
      List.append_eq_nil_iff] at hlists
    exact absurd hlists.1.2 (by simp)
  rw [htext, Path.splitName_extension hne (by simp)]

theorem nodup_fileNames (h : Names p name stem extension) (hs : s.WellNamed) :
    (fileNames s withImages stem name).Nodup := by
  have hlibrary : (Path.splitName (stem ++ ".mtl")).2 = some "mtl" := by
    rw [h.splitName_library]
  rw [fileNames, List.nodup_append]
  refine ⟨?_, ?_, ?_⟩
  · have hnodup := nodup_pictures hs withImages
    rw [List.Nodup, List.pairwise_map] at hnodup ⊢
    exact hnodup.imp fun hne himage => hne (imageName_inj himage)
  · have hne : stem ++ ".mtl" ≠ name := fun heq => h.name_ne hlibrary (by decide) heq.symm
    simpa using hne
  · intro image himage other hother heq
    obtain ⟨⟨texture, pixels⟩, -, rfl⟩ := List.mem_map.mp himage
    rcases List.mem_pair.mp hother with rfl | rfl
    · have hpng := splitName_imageName stem texture
      rw [heq, hlibrary] at hpng
      exact absurd (Option.some.inj hpng) (by decide)
    · exact h.name_ne (splitName_imageName stem texture) (by decide) heq.symm

/-- Neither the name nor anything named after it goes into another directory. -/
theorem not_mem_stem {above : List String} (h : Names p name stem extension)
    (hleads : p.LeadsTo above name) : '/' ∉ stem.toList := by
  have hname : '/' ∉ name.toList :=
    Path.not_mem_of_mem_parts (p := p) (by rw [hleads.parts_eq]; simp)
  rw [(Path.eq_of_splitName h.split_eq).1] at hname
  intro hmem
  exact hname (by simp [hmem])

theorem located (h : Names p name stem extension)
    (hplaces : ∀ path ∈ paths s p withImages stem, ∃ x, t.place? path = some x) :
    ∃ l, t.locate p = .ok (.entry l name false) ∧
      t.locate (p.beside (stem ++ ".mtl")) = .ok (.entry l (stem ++ ".mtl") false) ∧
      ∀ picture ∈ pictures s withImages, t.locate (p.beside (imageName stem picture.1)) =
        .ok (.entry l (imageName stem picture.1) false) := by
  simp only [paths, List.forall_mem_append, List.forall_mem_map, List.forall_mem_cons] at hplaces
  obtain ⟨himages, ⟨y, hlibrary⟩, ⟨x, hscene⟩, -⟩ := hplaces
  obtain ⟨l, found, hfound, -⟩ := FileTree.place?_eq_some_iff.mp hscene
  obtain ⟨-, -, -, above, hleads, hup, -⟩ := FileTree.locate_eq_entry_iff.mp hfound
  obtain rfl : found = name := Option.some.inj ((hleads.name?_eq hup).symm.trans h.name_eq)
  have hstem := h.not_mem_stem hleads
  have hbeside {other : String} (hother : '/' ∉ other.toList) {x : Location}
      (hx : t.place? (p.beside other) = some x) :
      t.locate (p.beside other) = .ok (.entry l other false) := by
    obtain ⟨l', other', hlocate, -⟩ := FileTree.place?_eq_some_iff.mp hx
    obtain ⟨rfl, rfl⟩ := FileTree.locate_beside hfound hother hlocate
    exact hlocate
  refine ⟨l, hfound, hbeside ?_ hlibrary, fun picture hpicture => ?_⟩
  · simp [hstem]
  · obtain ⟨z, hz⟩ := himages picture hpicture
    refine hbeside ?_ hz
    have hdigits := Numeral.not_mem_decimal (c := '/') (by decide) 4 picture.1
    simp [imageName, hstem, hdigits]

end Names

/-! ### What is held in the end -/

/-- Where the files of a scene are, and what they hold: images in files that they can be read out
of, and the two texts. -/
structure FilesHeld (load? : Bytes → Option PixelBuffer) (s : Scene) (p : Path) (withImages : Bool)
    (stem name : String) (t : FileTree) (directory : Location) : Prop where
  image : ∀ picture ∈ pictures s withImages, ∃ content, load? content = some picture.2 ∧
    t.Holds (p.beside (imageName stem picture.1)) directory (imageName stem picture.1) content
  library : t.Holds (p.beside (stem ++ ".mtl")) directory (stem ++ ".mtl")
    (Bytes.ofText (libraryText s withImages stem))
  scene : t.Holds p directory name (Bytes.ofText (Wavefront.objText s (stem ++ ".mtl")))

theorem filesHeld {name stem extension : String} {u : FileTree} {files : List (Path × Bytes)}
    (h : Names p name stem extension) (hs : s.WellNamed)
    (hleaves : List.Forall₂ (FileAction.Leaves load?) (saves s p withImages stem) files)
    (hputs : u.PutsAll files t) : (paths s p withImages stem).Nodup ∧
      ∃ directory, FilesHeld load? s p withImages stem name t directory := by
  have hpaths : files.map Prod.fst = paths s p withImages stem := by
    rw [map_fst_of_leaves hleaves, filterMap_saves]
  have hlocated : ∀ path ∈ paths s p withImages stem, ∃ x, t.place? path = some x := by
    rw [← hpaths, List.forall_mem_map]
    exact hputs.exists_place?
  obtain ⟨l, hscene, hlibrary, himages⟩ := h.located hlocated
  have hplace {path : Path} {n : String} (hlocate : t.locate path = .ok (.entry l n false)) :
      t.place? path = some (l ++ [n]) :=
    FileTree.place?_eq_some_iff.mpr ⟨l, n, hlocate, rfl⟩
  have hplaces : (paths s p withImages stem).map t.place? =
      (fileNames s withImages stem name).map fun n => some (l ++ [n]) := by
    have hpictures : (pictures s withImages).map (fun picture =>
        t.place? (p.beside (imageName stem picture.1))) =
        (pictures s withImages).map fun picture => some (l ++ [imageName stem picture.1]) :=
      List.map_congr_left fun picture hpicture => hplace (himages picture hpicture)
    simp only [paths, fileNames, List.map_append, List.map_map, List.map_cons, List.map_nil,
      Function.comp_def, hplace hscene, hplace hlibrary, hpictures]
  have hnodup : ((files.map Prod.fst).map t.place?).Nodup := by
    rw [hpaths, hplaces]
    refine (h.nodup_fileNames hs).map fun n n' hn => ?_
    simpa using hn
  have hread : ∀ path content, (path, content) ∈ files → t.read path = .ok content :=
    fun path content => hputs.read_eq (by rwa [List.map_map] at hnodup) (path, content)
  -- each action left a file, which is still as it was left
  have hleft := exists_left hleaves
  simp only [saves, List.forall_mem_append, List.forall_mem_map, List.forall_mem_cons,
    FileAction.leaves_saveImage, FileAction.leaves_saveText] at hleft
  obtain ⟨hpictures, ⟨library, hmtl, rfl⟩, ⟨scene, hobj, rfl⟩, -⟩ := hleft
  refine ⟨hpaths ▸ .of_map t.place? hnodup, l, fun picture hpicture => ?_,
    ⟨hlibrary, hread _ _ hmtl⟩, ⟨hscene, hread _ _ hobj⟩⟩
  obtain ⟨⟨path, content⟩, hfile, rfl, hload⟩ := hpictures picture hpicture
  exact ⟨content, hload, himages picture hpicture, hread _ _ hfile⟩

end Export

end DisplayList

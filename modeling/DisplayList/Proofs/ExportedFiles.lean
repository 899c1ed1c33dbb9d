import DisplayList.Proofs.Exporting
import DisplayList.Proofs.PngFiles

/-!
# Exported files refer to one another

The text of the meshes names the library and, for each mesh, a material of the library. The
library describes each material once, and in it names the image of its texture if there is one,
behind an option if the material clamps. A name is all that stands behind its keyword up to the end
of the line, so this holds of every output path whose file name is one line. Only a file name that
begins like the option can be mistaken for it.
-/
namespace DisplayList

namespace Export

variable {save : ImageSaver} {load? : Bytes → Option PixelBuffer} {s : Scene} {p : Path}
variable {withImages : Bool} {stem : String} {t : FileTree}

open Wavefront in
/-- Words say the name of the image of a texture: behind the option if the material clamps along
both axes, and without it if not. A reader that knows the option finds the name in them, unless they
are without the option and the stem itself begins like it. -/
structure SaysImage (m : Material) (stem : String) (texture : Nat) (words : String) : Prop where
  words_eq : words = imageWords m.clamps (imageName stem texture)
  clamps_iff : m.clamps = true ↔ m.wrapS = .clamp ∧ m.wrapT = .clamp
  said_iff : imageSaid words = (m.clamps, imageName stem texture) ↔
    (m.clamps = true ∨ ¬ clampOption.toList <+: stem.toList)

theorem saysImage (m : Material) (stem : String) (texture : Nat) :
    SaysImage m stem texture (Wavefront.imageWords m.clamps (imageName stem texture)) where
  words_eq := rfl
  clamps_iff := by simp [Material.clamps]
  said_iff := by
    rw [Wavefront.imageSaid_imageWords_iff, clampOption_prefix_imageName_iff]

/-- A stem is taken for the option where the material does not clamp. -/
example : Wavefront.imageSaid (Wavefront.imageWords false (imageName "-clamp on a" 0)) =
    (true, "a_tex_0000.png") := by
  decide +kernel

open Wavefront in
/-- How an OBJ text and an MTL text refer to each other and to the images beside them. -/
structure TextsRefer (s : Scene) (withImages : Bool) (stem obj mtl : String) : Prop where
  library : said "mtllib" obj = [stem ++ ".mtl"]
  names_eq : (descriptions mtl).map Description.name = s.materials.toList.map Material.name
  names_nodup : ((descriptions mtl).map Description.name).Nodup
  length_uses : (said "usemtl" obj).length = s.meshes.size
  uses : ∀ (k : Nat) mesh, s.meshes[k]? = some mesh → ∃ d,
    (descriptions mtl)[mesh.material]? = some d ∧ (said "usemtl" obj)[k]? = some d.name
  /-- No image is named before the first material. -/
  described : (describe (textLines mtl)).1 = []
  /-- What is said of images in a material is said of that of its own texture. -/
  own : ∀ (k : Nat) d, (descriptions mtl)[k]? = some d → d.images.length ≤ 1 ∧
    ∀ words ∈ d.images, ∃ m picture, s.materials[k]? = some m ∧ s.picture? m = some picture ∧
      picture ∈ pictures s withImages ∧ SaysImage m stem picture.1 words
  /-- Each image is named in one material, and in no other, with the option or without. -/
  once : ∀ picture ∈ pictures s withImages, ∃ (k : Nat) (m : Material) (d : Description),
    s.materials[k]? = some m ∧ (descriptions mtl)[k]? = some d ∧
    d.images = [imageWords m.clamps (imageName stem picture.1)] ∧
    ∀ (k' : Nat) d' clamped, (descriptions mtl)[k']? = some d' →
      imageWords clamped (imageName stem picture.1) ∈ d'.images → k' = k

/-- What the MTL text of a scene says of a material. -/
def description (s : Scene) (withImages : Bool) (stem : String) (m : Material) :
    Wavefront.Description where
  name := m.name
  images := ((imageOf s withImages m).map fun picture =>
    Wavefront.imageWords m.clamps (imageName stem picture.1)).toList

theorem picture?_of_imageOf {m : Material} {picture : Nat × PixelBuffer}
    (h : imageOf s withImages m = some picture) : s.picture? m = some picture := by
  rw [imageOf_eq] at h
  split at h
  · exact h
  · cases h

theorem mem_pictures_iff {picture : Nat × PixelBuffer} : picture ∈ pictures s withImages ↔
    ∃ (k : Nat) (m : Material), s.materials[k]? = some m ∧
      imageOf s withImages m = some picture := by
  rw [← filterMap_imageOf, List.mem_filterMap]
  constructor
  · rintro ⟨m, hm, himage⟩
    obtain ⟨k, hk⟩ := Array.mem_iff_getElem?.mp (Array.mem_toList_iff.mp hm)
    exact ⟨k, m, hk, himage⟩
  · rintro ⟨k, m, hk, himage⟩
    exact ⟨m, Array.mem_toList_iff.mpr (Array.mem_of_getElem? hk), himage⟩

/-- What is said in the description of a material is said of the image of its texture. -/
theorem mem_images {m : Material} {words : String}
    (h : words ∈ (description s withImages stem m).images) : ∃ picture,
      imageOf s withImages m = some picture ∧
      words = Wavefront.imageWords m.clamps (imageName stem picture.1) := by
  obtain ⟨picture, hpicture, rfl⟩ := Option.map_eq_some_iff.mp (Option.mem_toList.mp h)
  exact ⟨picture, hpicture, rfl⟩

/-- An MTL text is read as the descriptions of the materials it was written from. -/
theorem describe_libraryText (hs : s.WellNamed) (hstem : '\n' ∉ stem.toList) :
    Wavefront.describe (Wavefront.textLines (libraryText s withImages stem)) =
      ([], s.materials.toList.map (description s withImages stem)) := by
  have hnames : ∀ m ∈ s.materials.toList, '\n' ∉ m.name.toList :=
    fun m hm => hs.oneLine m (Array.mem_toList_iff.mp hm)
  rw [libraryText, Wavefront.describe_mtlText hnames]
  · rw [List.zipWith_map_right, List.zipWith_self]
    simp only [Option.map_map]
    rfl
  · intro image himage name hname
    obtain ⟨m, -, rfl⟩ := List.mem_map.mp himage
    obtain ⟨picture, -, rfl⟩ := Option.map_eq_some_iff.mp hname
    have hdigits := Numeral.not_mem_decimal (c := '\n') (by decide) 4 picture.1
    simp [imageName, hstem, hdigits]

section Texts

variable (hs : s.WellNamed) (hstem : '\n' ∉ stem.toList)

include hs hstem

/-- There is a description for each material, in the same place. -/
theorem getElem?_descriptions_iff {k : Nat} {d : Wavefront.Description} :
    (Wavefront.descriptions (libraryText s withImages stem))[k]? = some d ↔
      ∃ m, s.materials[k]? = some m ∧ description s withImages stem m = d := by
  rw [Wavefront.descriptions, describe_libraryText hs hstem, List.getElem?_map,
    Array.getElem?_toList, Option.map_eq_some_iff]

/-- Each mesh uses its own material. -/
theorem exists_use {k : Nat} {mesh : Mesh} (hmesh : s.meshes[k]? = some mesh) : ∃ d,
    (Wavefront.descriptions (libraryText s withImages stem))[mesh.material]? = some d ∧
      (Wavefront.said "usemtl" (Wavefront.objText s (stem ++ ".mtl")))[k]? = some d.name := by
  have hlibrary : '\n' ∉ (stem ++ ".mtl").toList := by simp [hstem]
  obtain ⟨m, hm⟩ : ∃ m, s.materials[mesh.material]? = some m :=
    ⟨_, Array.getElem?_eq_getElem (hs.material_lt mesh (Array.mem_of_getElem? hmesh))⟩
  refine ⟨_, (getElem?_descriptions_iff hs hstem).mpr ⟨_, hm, rfl⟩, ?_⟩
  rw [Wavefront.said_useMaterial hs.oneLine hlibrary, List.getElem?_map, Array.getElem?_toList,
    hmesh, Option.map_some, Wavefront.materialName, hm]
  rfl

/-- A description names at most the image of its own material. -/
theorem own_images {k : Nat} {d : Wavefront.Description}
    (hd : (Wavefront.descriptions (libraryText s withImages stem))[k]? = some d) :
    d.images.length ≤ 1 ∧ ∀ words ∈ d.images, ∃ m picture, s.materials[k]? = some m ∧
      s.picture? m = some picture ∧ picture ∈ pictures s withImages ∧
      SaysImage m stem picture.1 words := by
  obtain ⟨m, hm, rfl⟩ := (getElem?_descriptions_iff hs hstem).mp hd
  refine ⟨Option.length_toList_le, fun words hwords => ?_⟩
  obtain ⟨picture, hpicture, rfl⟩ := mem_images hwords
  exact ⟨m, picture, hm, picture?_of_imageOf hpicture,
    mem_pictures_iff.mpr ⟨k, m, hm, hpicture⟩, saysImage m stem picture.1⟩

/-- Descriptions that name the same image are of the same material, since no two materials have one
texture. -/
theorem eq_of_named {k k' : Nat} {m : Material} {picture : Nat × PixelBuffer}
    (hm : s.materials[k]? = some m) (himage : imageOf s withImages m = some picture)
    {d : Wavefront.Description} {clamped : Bool}
    (hd : (Wavefront.descriptions (libraryText s withImages stem))[k']? = some d)
    (hwords : Wavefront.imageWords clamped (imageName stem picture.1) ∈ d.images) : k' = k := by
  obtain ⟨m', hm', rfl⟩ := (getElem?_descriptions_iff hs hstem).mp hd
  obtain ⟨picture', himage', hsame⟩ := mem_images hwords
  have htexture : picture.1 = picture'.1 := eq_of_imageWords hsame
  refine hs.eq_of_texture hm' hm (s.texture_of_picture? (picture?_of_imageOf himage')) ?_
  rw [← htexture]
  exact s.texture_of_picture? (picture?_of_imageOf himage)

/-- The texts of a scene refer to each other if the stem of their names is one line. -/
theorem textsRefer : TextsRefer s withImages stem (Wavefront.objText s (stem ++ ".mtl"))
    (libraryText s withImages stem) := by
  have hlibrary : '\n' ∉ (stem ++ ".mtl").toList := by simp [hstem]
  have hdescribe : Wavefront.describe (Wavefront.textLines (libraryText s withImages stem)) =
      ([], s.materials.toList.map (description s withImages stem)) :=
    describe_libraryText hs hstem
  have hnames : (Wavefront.descriptions (libraryText s withImages stem)).map
      Wavefront.Description.name = s.materials.toList.map Material.name := by
    rw [Wavefront.descriptions, hdescribe, List.map_map]
    rfl
  refine ⟨Wavefront.said_library hs.oneLine hlibrary, hnames, hnames ▸ hs.names_nodup,
    by simp [Wavefront.said_useMaterial hs.oneLine hlibrary],
    fun k mesh hmesh => exists_use hs hstem hmesh, by rw [hdescribe],
    fun k d hd => own_images hs hstem hd, fun picture hpicture => ?_⟩
  obtain ⟨k, m, hm, himage⟩ := mem_pictures_iff.mp hpicture
  exact ⟨k, m, _, hm, (getElem?_descriptions_iff hs hstem).mpr ⟨m, hm, rfl⟩,
    by simp [description, himage], fun k' d clamped hd hwords =>
      eq_of_named hs hstem hm himage hd hwords⟩

end Texts

/-- The files of a scene that could be written refer to one another by names that do not clash. -/
theorem files_refer (hsave : save.Reliable load?) {m : Model} {codec : Codec} {limit : Nat}
    {out : Decoded} {written : List Path} (h : (m.decode codec limit).result = .ok out)
    (hwrite : (write t out.scene p withImages save).1.result = .ok written) :
    ∃ name stem directory, p.name? = some name ∧ p.stem? = some stem ∧
      written = (pictures out.scene withImages).map (fun picture =>
        p.beside (imageName stem picture.1)) ++ [p.beside (stem ++ ".mtl"), p] ∧
      written.Nodup ∧
      FilesHeld load? out.scene p withImages stem name
        (write t out.scene p withImages save).2 directory ∧
      ('\n' ∉ stem.toList → TextsRefer out.scene withImages stem
        (Wavefront.objText out.scene (stem ++ ".mtl"))
        (libraryText out.scene withImages stem)) := by
  have hs := Model.wellNamed_of_decode h
  obtain ⟨name, stem, extension, u, files, hnames, rfl, -, hleaves, hputs⟩ :=
    exists_made_of_write hsave hwrite
  obtain ⟨hnodup, directory, hheld⟩ := filesHeld hnames hs hleaves hputs
  exact ⟨name, stem, directory, hnames.name_eq, hnames.stem_eq, rfl, hnodup, hheld,
    textsRefer hs⟩

/-- A face without a texture, and a face with one. -/
def sampleExport : Model where
  vertices := .replicate 3 {}
  textures := #[{ dataOffset := 0, format := .rgba16, width := 1, height := 1 }]
  textureData := [255, 255]
  commands := #[.ofFields 4 0 12 0 0, .ofFields 191 0 0 0 0x204, .ofFields 182 0 0 0 0,
    .ofFields 253 0 0 0 0, .ofFields 4 0 12 0 0, .ofFields 191 0 0 0 0x204]

theorem files_refer_sample : ∃ out directory,
    (sampleExport.decode .packed 6).result = .ok out ∧
    (write (.ofHome []) out.scene ⟨"out/scene.obj"⟩ true Png.save).1.result =
      .ok [⟨"out/scene_tex_0000.png"⟩, ⟨"out/scene.mtl"⟩, ⟨"out/scene.obj"⟩] ∧
    FilesHeld Png.decode? out.scene ⟨"out/scene.obj"⟩ true "scene" "scene.obj"
      (write (.ofHome []) out.scene ⟨"out/scene.obj"⟩ true Png.save).2 directory ∧
    TextsRefer out.scene true "scene" (Wavefront.objText out.scene "scene.mtl")
      (libraryText out.scene true "scene") := by
  obtain ⟨out, hout⟩ : ∃ out, (sampleExport.decode .packed 6).result = .ok out := ⟨_, rfl⟩
  have hwritten : ((sampleExport.decode .packed 6).result.toOption.bind fun out =>
      (write (.ofHome []) out.scene ⟨"out/scene.obj"⟩ true Png.save).1.result.toOption) =
      some [⟨"out/scene_tex_0000.png"⟩, ⟨"out/scene.mtl"⟩, ⟨"out/scene.obj"⟩] := by
    decide +kernel
  rw [hout] at hwritten
  have hwrite := VertexWindow.toOption_eq_some_iff.mp hwritten
  have hname : (⟨"out/scene.obj"⟩ : Path).name? = some "scene.obj" := by decide +kernel
  have hstem : (⟨"out/scene.obj"⟩ : Path).stem? = some "scene" := by decide +kernel
  obtain ⟨name, stem, directory, hname', hstem', -, -, hheld, htexts⟩ :=
    files_refer Png.reliable_save hout hwrite
  obtain rfl : "scene.obj" = name := Option.some.inj (hname.symm.trans hname')
  obtain rfl : "scene" = stem := Option.some.inj (hstem.symm.trans hstem')
  exact ⟨out, directory, hout, hwrite, hheld, htexts (by decide +kernel)⟩

/-- A line feed in the name of the library ends the line that names it, and what comes after it is
read as the material of a mesh, although there are no meshes. -/
theorem not_textsRefer_lineFeed : ∃ out obj,
    (({} : Model).decode .packed 0).result = .ok out ∧ out.scene.meshes = #[] ∧
    (write (.ofHome []) out.scene ⟨"a\nusemtl b.obj"⟩ true Png.save).1.result =
      .ok [⟨"a\nusemtl b.mtl"⟩, ⟨"a\nusemtl b.obj"⟩] ∧
    (write (.ofHome []) out.scene ⟨"a\nusemtl b.obj"⟩ true Png.save).2.read ⟨"a\nusemtl b.obj"⟩ =
      .ok (Bytes.ofText obj) ∧
    Wavefront.said "mtllib" obj = ["a"] ∧ Wavefront.said "usemtl" obj = ["b.mtl"] ∧
    ∀ mtl, ¬ TextsRefer out.scene true "a\nusemtl b" obj mtl := by
  obtain ⟨out, hout, hscene⟩ : ∃ out, (({} : Model).decode .packed 0).result = .ok out ∧
      out.scene = { materials := #[.null] } := ⟨_, rfl, rfl⟩
  have hlibrary : Wavefront.said "mtllib"
      (Wavefront.objText { materials := #[.null] } "a\nusemtl b.mtl") = ["a"] := by
    decide +kernel
  refine ⟨out, Wavefront.objText out.scene "a\nusemtl b.mtl", hout, ?_⟩
  rw [hscene]
  refine ⟨rfl, VertexWindow.toOption_eq_some_iff.mp ?_, VertexWindow.toOption_eq_some_iff.mp ?_,
    hlibrary, ?_, fun mtl h => ?_⟩
  · decide +kernel
  · decide +kernel
  · decide +kernel
  · have hnames := hlibrary.symm.trans h.library
    exact absurd hnames (by decide)

end Export

end DisplayList

import DisplayList.Proofs.ObjNumbering
import DisplayList.Wavefront.Mtl

/-!
# Names read in texts

A name may have spaces in it, so it is all that a line says after its keyword and one space. Read
so, an OBJ text names its library and the materials of its meshes, and an MTL text describes its
materials one after the other: each begins with its name, and the images that are named from
there up to the next one are its own. Nothing but a line feed in a name can spoil this.
-/
namespace DisplayList

namespace Wavefront

/-! ### The reader -/

/-- What a line says after a keyword and one space, if it begins so. -/
def said? (keyword : String) (line : List Char) : Option String :=
  if (keyword.toList ++ [' ']) <+: line then
    some (String.ofList (line.drop (keyword.toList.length + 1)))
  else none

/-- What the lines of a text say that begin with a keyword, in order. -/
def said (keyword text : String) : List String :=
  (textLines text).filterMap (said? keyword)

/-- A material as lines of MTL text describe it. -/
structure Description where
  name : String
  /-- What is said of its images. -/
  images : List String
  deriving DecidableEq, Repr

/-- The images before the first material in lines of MTL text, and the materials. -/
def describe : List (List Char) → List String × List Description
  | [] => ([], [])
  | line :: rest =>
    let (images, materials) := describe rest
    match said? "newmtl" line, said? "map_Kd" line with
    | some name, _ => ([], ⟨name, images⟩ :: materials)
    | none, some image => (image :: images, materials)
    | none, none => (images, materials)

/-- The materials that an MTL text describes. -/
def descriptions (text : String) : List Description :=
  (describe (textLines text)).2

/-- The option for textures that do not repeat, as it stands before the name of an image. -/
def clampOption : String := "-clamp on "

/-- What words about an image come to: whether they begin with the option, and the name that is left
of them. -/
def imageSaid (words : String) : Bool × String :=
  if clampOption.toList <+: words.toList then
    (true, String.ofList (words.toList.drop clampOption.toList.length))
  else (false, words)

/-! ### Lines -/

/-- A line with a keyword says what stands behind it, and nothing for any other keyword. -/
theorem said?_line {keyword other : String} (hkeyword : ' ' ∉ keyword.toList)
    (hother : ' ' ∉ other.toList) (body : List Char) :
    said? keyword (other.toList ++ ' ' :: body) =
      if other = keyword then some (String.ofList body) else none := by
  unfold said?
  by_cases hsame : other = keyword
  · subst hsame
    have hprefix : other.toList ++ [' '] <+: other.toList ++ ' ' :: body := by simp
    rw [if_pos hprefix, if_pos rfl, ← List.singleton_append, ← List.append_assoc,
      List.drop_left' (by simp)]
  · rw [if_neg hsame, if_neg]
    rintro ⟨rest, hrest⟩
    rw [List.append_assoc, List.singleton_append] at hrest
    have hwords := congrArg (List.splitOn ' ') hrest
    rw [List.splitOn_append_cons_self_of_not_mem hkeyword,
      List.splitOn_append_cons_self_of_not_mem hother] at hwords
    exact hsame (String.toList_inj.mp (List.cons.inj hwords).1.symm)

theorem said?_nil (keyword : String) : said? keyword [] = none := by
  simp [said?]

/-! ### OBJ text -/

section Obj

variable {s : Scene} {library keyword : String}

theorem said?_text (l : ObjLine) (hkeyword : ' ' ∉ keyword.toList) :
    said? keyword l.text.toList = if l.keyword = keyword then some l.body else none := by
  have hspace : ' ' ∉ l.keyword.toList := by cases l <;> simp [ObjLine.keyword]
  rw [l.toList_text, said?_line hkeyword hspace, String.ofList_toList]

/-- What the lines with a keyword say. -/
def bodiesOf (keyword : String) (ls : List ObjLine) : List String :=
  ls.filterMap fun l => if l.keyword = keyword then some l.body else none

theorem bodiesOf_append (ls more : List ObjLine) :
    bodiesOf keyword (ls ++ more) = bodiesOf keyword ls ++ bodiesOf keyword more :=
  List.filterMap_append

theorem bodiesOf_eq_nil {ls : List ObjLine} {other : String} (h : ∀ l ∈ ls, l.keyword = other)
    (hne : other ≠ keyword) : bodiesOf keyword ls = [] := by
  refine List.filterMap_eq_nil_iff.mpr fun l hl => ?_
  rw [h l hl, if_neg hne]

/-- Only the lines at the head of a mesh have words for names. -/
theorem bodiesOf_meshLines (index base : Nat) (m : Mesh) (hv : "v" ≠ keyword) (hvt : "vt" ≠ keyword)
    (hf : "f" ≠ keyword) : bodiesOf keyword (meshLines s.materials index base m) =
      bodiesOf keyword (headLines s.materials index m) := by
  rw [meshLines_eq, bodiesOf_append, bodiesOf_append, bodiesOf_append,
    bodiesOf_eq_nil (keyword_vertexLines m) hv, bodiesOf_eq_nil (keyword_texCoordLines m) hvt,
    bodiesOf_eq_nil (keyword_faceLines base m) hf]
  simp only [List.append_nil]

theorem bodiesOf_library_meshesLines (index base : Nat) (ms : List Mesh) :
    bodiesOf "mtllib" (meshesLines s.materials index base ms) = [] := by
  induction ms generalizing index base with
  | nil => rfl
  | cons m ms ih =>
    rw [meshesLines, bodiesOf_append, ih, bodiesOf_meshLines _ _ _ (by simp) (by simp) (by simp)]
    rfl

theorem bodiesOf_useMaterial_meshesLines (index base : Nat) (ms : List Mesh) :
    bodiesOf "usemtl" (meshesLines s.materials index base ms) =
      ms.map fun m => materialName s.materials m.material := by
  induction ms generalizing index base with
  | nil => rfl
  | cons m ms ih =>
    rw [meshesLines, bodiesOf_append, ih, bodiesOf_meshLines _ _ _ (by simp) (by simp) (by simp)]
    rfl

variable (hnames : ∀ a ∈ s.materials, '\n' ∉ a.name.toList) (hlibrary : '\n' ∉ library.toList)

include hnames hlibrary

theorem said_objText (hkeyword : ' ' ∉ keyword.toList) :
    said keyword (objText s library) = bodiesOf keyword (objLines s library) := by
  have hlines : ∀ line ∈ (objLines s library).map ObjLine.text, '\n' ∉ line.toList := by
    intro line hline
    obtain ⟨l, hl, rfl⟩ := List.mem_map.mp hline
    exact (oneLine_objLines hnames hlibrary l hl).not_mem_text
  rw [said, objText, textLines_joinLines hlines, List.map_map, List.filterMap_map]
  exact List.filterMap_congr fun l _ => said?_text l hkeyword

/-- An OBJ text names one library. -/
theorem said_library : said "mtllib" (objText s library) = [library] := by
  rw [said_objText hnames hlibrary (by simp), objLines, bodiesOf_append,
    bodiesOf_library_meshesLines]
  rfl

/-- An OBJ text names a material for each mesh. -/
theorem said_useMaterial : said "usemtl" (objText s library) =
    s.meshes.toList.map fun m => materialName s.materials m.material := by
  rw [said_objText hnames hlibrary (by simp), objLines, bodiesOf_append,
    bodiesOf_useMaterial_meshesLines]
  rfl

end Obj

/-! ### MTL text -/

/-- What an MTL text says of an image. -/
def imageWords (clamped : Bool) (name : String) : String :=
  if clamped then clampOption ++ name else name

/-- The option is taken for what it is, but so is a name that begins like it. -/
theorem imageSaid_imageWords_iff {clamped : Bool} {name : String} :
    imageSaid (imageWords clamped name) = (clamped, name) ↔
      (clamped = true ∨ ¬ clampOption.toList <+: name.toList) := by
  unfold imageSaid imageWords
  cases clamped with
  | true => simp
  | false =>
    by_cases hname : clampOption.toList <+: name.toList <;> simp [hname]

namespace MtlLine

@[simp] theorem text_count (n : Nat) : (count n).text = s!"# Materials: {n}" := rfl

@[simp] theorem text_blank : blank.text = "" := rfl

@[simp] theorem text_newMaterial (name : String) : (newMaterial name).text = "newmtl " ++ name :=
  rfl

@[simp] theorem text_fullColour : fullColour.text = "Kd 1.0 1.0 1.0" := rfl

@[simp] theorem text_image (clamped : Bool) (name : String) :
    (image clamped name).text = "map_Kd " ++ imageWords clamped name := by
  cases clamped with
  | true =>
    show "map_Kd " ++ clampOption ++ name = _
    rw [String.append_assoc]
    rfl
  | false => rfl

end MtlLine

theorem describe_blank (rest : List (List Char)) : describe ([] :: rest) = describe rest := by
  simp [describe, said?_nil]

/-- Lines that neither begin a material nor name an image are passed over. -/
theorem describe_line {other : String} (hother : ' ' ∉ other.toList) (body : List Char)
    (rest : List (List Char)) : describe ((other.toList ++ ' ' :: body) :: rest) =
      if other = "newmtl" then ([], ⟨String.ofList body, (describe rest).1⟩ :: (describe rest).2)
      else if other = "map_Kd" then (String.ofList body :: (describe rest).1, (describe rest).2)
      else describe rest := by
  rw [describe, said?_line (by simp) hother, said?_line (by simp) hother]
  by_cases hnew : other = "newmtl"
  · simp [hnew]
  · by_cases himage : other = "map_Kd"
    · simp [himage]
    · simp [hnew, himage]

theorem describe_newMaterial (name : String) (rest : List (List Char)) :
    describe ((MtlLine.newMaterial name).text.toList :: rest) =
      ([], ⟨name, (describe rest).1⟩ :: (describe rest).2) := by
  have htext : (MtlLine.newMaterial name).text.toList = "newmtl".toList ++ ' ' :: name.toList := by
    simp
  rw [htext, describe_line (by simp), if_pos rfl, String.ofList_toList]

theorem describe_fullColour (rest : List (List Char)) :
    describe (MtlLine.fullColour.text.toList :: rest) = describe rest := by
  have htext : MtlLine.fullColour.text.toList = "Kd".toList ++ ' ' :: "1.0 1.0 1.0".toList := rfl
  rw [htext, describe_line (by simp), if_neg (by decide), if_neg (by decide)]

theorem describe_image (clamped : Bool) (name : String) (rest : List (List Char)) :
    describe ((MtlLine.image clamped name).text.toList :: rest) =
      (imageWords clamped name :: (describe rest).1, (describe rest).2) := by
  have htext : (MtlLine.image clamped name).text.toList =
      "map_Kd".toList ++ ' ' :: (imageWords clamped name).toList := by
    simp
  rw [htext, describe_line (by simp), if_neg (by decide), if_pos rfl, String.ofList_toList]

theorem describe_materialLines (m : Material) (image : Option String) (rest : List (List Char)) :
    describe ((materialLines m image).map (fun l => l.text.toList) ++ rest) =
      ([], ⟨m.name, (image.map (imageWords m.clamps)).toList ++ (describe rest).1⟩ ::
        (describe rest).2) := by
  have hmaterial (more : List (List Char)) : describe (MtlLine.blank.text.toList ::
      (MtlLine.newMaterial m.name).text.toList :: MtlLine.fullColour.text.toList :: more) =
      ([], ⟨m.name, (describe more).1⟩ :: (describe more).2) := by
    rw [MtlLine.text_blank, String.toList_empty, describe_blank, describe_newMaterial,
      describe_fullColour]
  cases image with
  | none => exact hmaterial rest
  | some name =>
    refine (hmaterial ((MtlLine.image m.clamps name).text.toList :: rest)).trans ?_
    rw [describe_image]
    rfl

theorem describe_flatten (ms : List Material) (images : List (Option String)) :
    describe (((ms.zipWith materialLines images).flatten).map fun l => l.text.toList) =
      ([], ms.zipWith (fun m image => ⟨m.name, (image.map (imageWords m.clamps)).toList⟩)
        images) := by
  induction ms generalizing images with
  | nil => rfl
  | cons m ms ih =>
    cases images with
    | nil => rfl
    | cons image images =>
      rw [List.zipWith_cons_cons, List.flatten_cons, List.map_append, describe_materialLines, ih]
      simp

theorem oneLine_materialLines {m : Material} {image : Option String} (hname : '\n' ∉ m.name.toList)
    (himage : ∀ name ∈ image, '\n' ∉ name.toList) :
    ∀ l ∈ materialLines m image, '\n' ∉ l.text.toList := by
  intro l hl
  simp only [materialLines, List.mem_append, List.mem_cons, List.not_mem_nil, or_false,
    Option.mem_toList, Option.map_eq_some_iff] at hl
  rcases hl with (rfl | rfl | rfl) | ⟨name, hsome, rfl⟩
  · simp
  · simp [hname]
  · simp
  · have hmem : '\n' ∉ name.toList := himage name hsome
    cases m.clamps <;> simp [imageWords, clampOption, hmem]

theorem oneLine_mtlLines {ms : List Material} {images : List (Option String)}
    (hnames : ∀ m ∈ ms, '\n' ∉ m.name.toList)
    (himages : ∀ image ∈ images, ∀ name ∈ image, '\n' ∉ name.toList) :
    ∀ l ∈ mtlLines ms images, '\n' ∉ l.text.toList := by
  have hdigits : '\n' ∉ Nat.toDigits 10 ms.length := (isNumber_toDigits _).not_mem (by decide)
  refine List.forall_mem_cons.mpr ⟨by simp [toString, hdigits], fun l hl => ?_⟩
  obtain ⟨piece, hpiece, hl⟩ := List.mem_flatten.mp hl
  obtain ⟨k, hk⟩ := List.mem_iff_getElem?.mp hpiece
  obtain ⟨m, image, hm, himage, rfl⟩ := List.getElem?_zipWith_eq_some.mp hk
  exact oneLine_materialLines (hnames m (List.mem_of_getElem? hm))
    (himages image (List.mem_of_getElem? himage)) l hl

/-- An MTL text describes each material with its own image. -/
theorem describe_mtlText {ms : List Material} {images : List (Option String)}
    (hnames : ∀ m ∈ ms, '\n' ∉ m.name.toList)
    (himages : ∀ image ∈ images, ∀ name ∈ image, '\n' ∉ name.toList) :
    describe (textLines (mtlText ms images)) =
      ([], ms.zipWith (fun m image => ⟨m.name, (image.map (imageWords m.clamps)).toList⟩)
        images) := by
  have hlines : ∀ line ∈ (mtlLines ms images).map MtlLine.text, '\n' ∉ line.toList := by
    intro line hline
    obtain ⟨l, hl, rfl⟩ := List.mem_map.mp hline
    exact oneLine_mtlLines hnames himages l hl
  have hcount : (MtlLine.count ms.length).text.toList =
      "#".toList ++ ' ' :: ("Materials: " ++ toString ms.length).toList := by
    simp [toString]
  rw [mtlText, textLines_joinLines hlines, List.map_map, mtlLines, List.map_cons]
  show describe ((MtlLine.count ms.length).text.toList :: _) = _
  rw [hcount, describe_line (by simp)]
  exact describe_flatten ms images

end Wavefront

end DisplayList

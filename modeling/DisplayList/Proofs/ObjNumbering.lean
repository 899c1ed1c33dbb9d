import DisplayList.Proofs.ObjReading
import Mathlib.Algebra.GroupWithZero.Nat
import Mathlib.Data.List.Basic

/-!
# Faces name their own vertices

The vertices of a scene are numbered through the whole text, in one loop, and so are the texture
coordinates, in another one. Each mesh has as many of the one as of the other, so both counts
stay equal from mesh to mesh, and both are the number from which the faces of a mesh count.
-/
namespace DisplayList

/-- A mesh has a colour and coordinates for every position, and faces among the positions. -/
structure Mesh.Complete (m : Mesh) : Prop where
  colours_size : m.colours.size = m.positions.size
  uvs_size : m.uvs.size = m.positions.size
  face_lt : ∀ t ∈ m.faces, ∀ l ∈ t.toList, l.toNat < m.positions.size

theorem Mesh.complete_iff (m : Mesh) : m.Complete ↔ m.colours.size = m.positions.size ∧
    m.uvs.size = m.positions.size ∧
      ∀ t ∈ m.faces, ∀ l ∈ t.toList, l.toNat < m.positions.size :=
  ⟨fun h => ⟨h.colours_size, h.uvs_size, h.face_lt⟩, fun ⟨h, h', h''⟩ => ⟨h, h', h''⟩⟩

instance (m : Mesh) : Decidable m.Complete :=
  decidable_of_iff (m.colours.size = m.positions.size ∧ m.uvs.size = m.positions.size ∧
      m.faces.toList.all fun t => t.toList.all fun l => l.toNat < m.positions.size)
    (by simp only [m.complete_iff, List.all_eq_true, decide_eq_true_eq, Array.mem_toList_iff])

namespace Wavefront

open ObjLine

/-! ### Lines of a kind -/

theorem keyCount_of_forall {ls : List ObjLine} {k : String} (h : ∀ l ∈ ls, l.keyword = k)
    (key : String) : keyCount key ls = if k = key then ls.length else 0 := by
  by_cases hk : k = key
  · rw [if_pos hk, keyCount, List.countP_eq_length]
    intro l hl
    simp [h l hl, hk]
  · rw [if_neg hk, keyCount, List.countP_eq_zero]
    intro l hl
    simp [h l hl, hk]

/-- Among lines of one kind every line has its number. -/
theorem getElem?_statementsOf_of_forall {ls before piece after : List ObjLine} {l : ObjLine}
    {key : String} {k : Nat} (hls : ls = before ++ (piece ++ after))
    (hpiece : ∀ l ∈ piece, l.keyword = key) (hl : piece[k]? = some l) :
    (statementsOf key 0 ls)[keyCount key before + k]? = some ⟨before.length + k, l.arguments⟩ := by
  obtain ⟨hk, hget⟩ := List.getElem?_eq_some_iff.mp hl
  have hkey : l.keyword = key := hpiece l (List.mem_of_getElem? hl)
  have hsplit : ls = (before ++ piece.take k) ++ l :: (piece.drop (k + 1) ++ after) := by
    rw [hls, ← hget, ← List.cons_append, List.getElem_cons_drop, List.append_assoc,
      ← List.append_assoc (piece.take k), List.take_append_drop]
  have hcount : keyCount key (piece.take k) = k := by
    rw [keyCount_of_forall (fun l hl => hpiece l (List.mem_of_mem_take hl)), if_pos rfl,
      List.length_take, Nat.min_eq_left (Nat.le_of_lt hk)]
  have hfound := getElem?_statementsOf hsplit
  rwa [hkey, keyCount_append, hcount, List.length_append, List.length_take,
    Nat.min_eq_left (Nat.le_of_lt hk)] at hfound

/-! ### The lines of a mesh -/

section MeshLines

variable (materials : Array Material) (index base : Nat) (m : Mesh)

def headLines : List ObjLine :=
  [.object index, .useMaterial (materialName materials m.material)]

def vertexLines : List ObjLine :=
  m.positions.toList.zipWith vertex m.colours.toList

def texCoordLines : List ObjLine :=
  m.uvs.toList.map texCoord

def faceLines : List ObjLine :=
  m.faces.toList.map fun f => .face (f.map fun n => n.toNat + base)

theorem length_headLines : (headLines materials index m).length = 2 := rfl

theorem meshLines_eq : meshLines materials index base m =
    headLines materials index m ++ vertexLines m ++ texCoordLines m ++ faceLines base m := rfl

theorem keyword_vertexLines : ∀ l ∈ vertexLines m, l.keyword = "v" := by
  intro l hl
  obtain ⟨k, hk⟩ := List.mem_iff_getElem?.mp hl
  obtain ⟨p, c, -, -, rfl⟩ := List.getElem?_zipWith_eq_some.mp hk
  rfl

theorem keyword_texCoordLines : ∀ l ∈ texCoordLines m, l.keyword = "vt" := by
  intro l hl
  obtain ⟨uv, -, rfl⟩ := List.mem_map.mp hl
  rfl

theorem keyword_faceLines : ∀ l ∈ faceLines base m, l.keyword = "f" := by
  intro l hl
  obtain ⟨t, -, rfl⟩ := List.mem_map.mp hl
  rfl

variable {m}

theorem length_vertexLines (hm : m.Complete) : (vertexLines m).length = m.vertexCount := by
  simp [vertexLines, hm.colours_size, Mesh.vertexCount]

theorem length_texCoordLines (hm : m.Complete) : (texCoordLines m).length = m.vertexCount := by
  simp [texCoordLines, hm.uvs_size, Mesh.vertexCount]

theorem keyCount_headLines (key : String) : keyCount key (headLines materials index m) =
    (if "o" = key then 1 else 0) + (if "usemtl" = key then 1 else 0) := by
  have hobject : keyCount key [.object index] = if "o" = key then 1 else 0 :=
    keyCount_of_forall (by simp [keyword]) key
  have hmaterial : keyCount key [.useMaterial (materialName materials m.material)] =
      if "usemtl" = key then 1 else 0 := keyCount_of_forall (by simp [keyword]) key
  rw [headLines, ← List.singleton_append, keyCount_append, hobject, hmaterial]

/-- How many lines with a keyword a mesh has. -/
def lineCount (key : String) (m : Mesh) : Nat :=
  (if "o" = key then 1 else 0) + (if "usemtl" = key then 1 else 0) +
    (if "v" = key then m.vertexCount else 0) + (if "vt" = key then m.vertexCount else 0) +
    (if "f" = key then m.faces.size else 0)

@[simp] theorem lineCount_object : lineCount "o" = fun _ => 1 := by
  funext m
  simp [lineCount]

@[simp] theorem lineCount_useMaterial : lineCount "usemtl" = fun _ => 1 := by
  funext m
  simp [lineCount]

@[simp] theorem lineCount_vertex : lineCount "v" = Mesh.vertexCount := by
  funext m
  simp [lineCount]

@[simp] theorem lineCount_texCoord : lineCount "vt" = Mesh.vertexCount := by
  funext m
  simp [lineCount]

@[simp] theorem lineCount_face : lineCount "f" = fun m => m.faces.size := by
  funext m
  simp [lineCount]

theorem keyCount_meshLines (hm : m.Complete) (key : String) :
    keyCount key (meshLines materials index base m) = lineCount key m := by
  rw [meshLines_eq, keyCount_append, keyCount_append, keyCount_append, keyCount_headLines,
    keyCount_of_forall (keyword_vertexLines m), keyCount_of_forall (keyword_texCoordLines m),
    keyCount_of_forall (keyword_faceLines base m), length_vertexLines hm, length_texCoordLines hm]
  simp [lineCount, faceLines]

end MeshLines

/-! ### The lines of all meshes -/

/-- How many vertices meshes have in all. -/
def vertexTotal (ms : List Mesh) : Nat :=
  (ms.map Mesh.vertexCount).sum

/-- How many faces meshes have in all. -/
def faceTotal (ms : List Mesh) : Nat :=
  (ms.map fun m => m.faces.size).sum

theorem meshesLines_append (materials : Array Material) (index base : Nat) (ms more : List Mesh) :
    meshesLines materials index base (ms ++ more) = meshesLines materials index base ms ++
      meshesLines materials (index + ms.length) (base + vertexTotal ms) more := by
  induction ms generalizing index base with
  | nil => simp [meshesLines, vertexTotal]
  | cons m ms ih =>
    have hrest := ih (index + 1) (base + m.vertexCount)
    simp only [vertexTotal, List.cons_append, meshesLines, hrest, List.append_assoc,
      List.length_cons, List.map_cons, List.sum_cons, Nat.add_assoc, Nat.add_comm 1]

theorem keyCount_meshesLines {ms : List Mesh} (hms : ∀ m ∈ ms, m.Complete)
    (materials : Array Material) (index base : Nat) (key : String) :
    keyCount key (meshesLines materials index base ms) = (ms.map (lineCount key)).sum := by
  induction ms generalizing index base with
  | nil => rfl
  | cons m ms ih =>
    rw [meshesLines, keyCount_append, keyCount_meshLines _ _ _ (hms m List.mem_cons_self),
      ih (fun n hn => hms n (List.mem_cons_of_mem _ hn)), List.map_cons, List.sum_cons]

/-! ### The text of a scene -/

section Scene

variable {s : Scene} {library : String} {i : Nat} {m : Mesh}

/-- The lines before those of the mesh at `i`. -/
def linesBefore (s : Scene) (library : String) (i : Nat) : List ObjLine :=
  [.counts s.meshes.size s.faceCount, .library library] ++
    meshesLines s.materials 0 1 (s.meshes.toList.take i)

/-- Behind those there are its own lines, kind by kind. -/
theorem objLines_eq (library : String) (h : s.meshes[i]? = some m) : ∃ after, objLines s library =
    linesBefore s library i ++ (headLines s.materials i m ++ (vertexLines m ++ (texCoordLines m ++
      (faceLines (1 + vertexTotal (s.meshes.toList.take i)) m ++ after)))) := by
  have hlist : s.meshes.toList[i]? = some m := by simpa using h
  obtain ⟨hi, hget⟩ := List.getElem?_eq_some_iff.mp hlist
  have hsplit : s.meshes.toList = s.meshes.toList.take i ++ m :: s.meshes.toList.drop (i + 1) := by
    rw [← hget, List.getElem_cons_drop, List.take_append_drop]
  have hlength : (s.meshes.toList.take i).length = i := by
    rw [List.length_take, Nat.min_eq_left (Nat.le_of_lt hi)]
  refine ⟨meshesLines s.materials (i + 1) (1 + vertexTotal (s.meshes.toList.take i) + m.vertexCount)
    (s.meshes.toList.drop (i + 1)), ?_⟩
  have hlines := congrArg (meshesLines s.materials 0 1) hsplit
  rw [meshesLines_append, hlength, Nat.zero_add, meshesLines] at hlines
  rw [objLines, hlines, linesBefore, meshLines_eq]
  simp only [List.append_assoc]

theorem faceCount_eq (s : Scene) : s.faceCount = faceTotal s.meshes.toList := by
  rw [Scene.faceCount, faceTotal, List.sum, List.foldr_map]

section OneLine

variable (hnames : ∀ a ∈ s.materials, '\n' ∉ a.name.toList)

include hnames

theorem oneLine_useMaterial (index : Nat) :
    (useMaterial (materialName s.materials index)).OneLine := by
  show '\n' ∉ (materialName s.materials index).toList
  unfold materialName
  cases ha : s.materials[index]? with
  | none => decide
  | some a => exact hnames a (Array.mem_of_getElem? ha)

theorem oneLine_meshLines (index base : Nat) (m : Mesh) :
    ∀ l ∈ meshLines s.materials index base m, l.OneLine := by
  intro l hl
  simp only [meshLines_eq, List.mem_append] at hl
  rcases hl with ((hhead | hvertex) | htexCoord) | hface
  · rcases List.mem_pair.mp hhead with rfl | rfl
    · exact oneLine_object index
    · exact oneLine_useMaterial hnames m.material
  · obtain ⟨k, hk⟩ := List.mem_iff_getElem?.mp hvertex
    obtain ⟨p, c, -, -, rfl⟩ := List.getElem?_zipWith_eq_some.mp hk
    exact oneLine_vertex p c
  · obtain ⟨uv, -, rfl⟩ := List.mem_map.mp htexCoord
    exact oneLine_texCoord uv
  · obtain ⟨t, -, rfl⟩ := List.mem_map.mp hface
    exact oneLine_face _

theorem oneLine_meshesLines (ms : List Mesh) (index base : Nat) :
    ∀ l ∈ meshesLines s.materials index base ms, l.OneLine := by
  induction ms generalizing index base with
  | nil => simp [meshesLines]
  | cons m ms ih =>
    exact List.forall_mem_append.mpr ⟨oneLine_meshLines hnames index base m, ih _ _⟩

/-- Names without line feeds make lines. -/
theorem oneLine_objLines (hlibrary : '\n' ∉ library.toList) :
    ∀ l ∈ objLines s library, l.OneLine := by
  refine List.forall_mem_append.mpr ⟨fun l hl => ?_, oneLine_meshesLines hnames _ _ _⟩
  rcases List.mem_pair.mp hl with rfl | rfl
  · exact oneLine_counts _ _
  · exact hlibrary

end OneLine

/-- Before the lines of the mesh at `i` there are those of the meshes before it. -/
theorem keyCount_linesBefore (hms : ∀ m ∈ s.meshes, m.Complete) {key : String}
    (hcounts : "#" ≠ key) (hlibrary : "mtllib" ≠ key) : keyCount key (linesBefore s library i) =
      ((s.meshes.toList.take i).map (lineCount key)).sum := by
  have hearlier : ∀ m ∈ s.meshes.toList.take i, m.Complete :=
    fun m hm => hms m (Array.mem_toList_iff.mp (List.mem_of_mem_take hm))
  rw [linesBefore, keyCount_append, keyCount_meshesLines hearlier]
  simp [keyCount, keyword, hcounts, hlibrary]

end Scene

end Wavefront

end DisplayList

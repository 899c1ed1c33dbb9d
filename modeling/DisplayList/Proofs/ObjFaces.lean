import DisplayList.Proofs.Materials
import DisplayList.Proofs.Meshes
import DisplayList.Proofs.ObjNumbering

/-!
# The faces of an OBJ text

A corner of a face is read as two numbers. They are the same number, and the vertex and the
texture coordinates that have it are those written for the corner, in lines before that of the
face. This needs meshes that are complete, which those of every decoded scene are.
-/
namespace DisplayList

namespace Wavefront

/-! ### Reading the text of a scene -/

/-- What the text of a scene says in all: in its first line, and by its lines of each kind. -/
structure CountsRead (text : String) (s : Scene) : Prop where
  first : (textLines text)[0]? =
    some s!"# Meshes: {s.meshes.size}, Faces: {faceTotal s.meshes.toList}".toList
  objects : (statements "o" text).length = s.meshes.size
  materials : (statements "usemtl" text).length = s.meshes.size
  vertices : (statements "v" text).length = vertexTotal s.meshes.toList
  texCoords : (statements "vt" text).length = vertexTotal s.meshes.toList
  faces : (statements "f" text).length = faceTotal s.meshes.toList

/-- What the text of a scene says about the corner `c` of the face `j` of a mesh `m`, which has
the meshes `earlier` before it, where the corner is the vertex `l` of the mesh. -/
structure CornerRead (text : String) (earlier : List Mesh) (m : Mesh) (j c l : Nat)
    (object vertex texCoord face : Statement) (n : Nat) : Prop where
  object_eq : (statements "o" text)[earlier.length]? = some object
  face_eq : (statements "f" text)[faceTotal earlier + j]? = some face
  /-- The corner names a vertex and texture coordinates by the same number. -/
  corner_eq : face.arguments[c]?.bind corner? = some (n, n)
  vertex_eq : numbered? "v" text n = some vertex
  texCoord_eq : numbered? "vt" text n = some texCoord
  vertex_arguments : ∃ p q, m.positions[l]? = some p ∧ m.colours[l]? = some q ∧
    vertex.arguments = floatWords [p.x, p.y, p.z, q.red / 255, q.green / 255, q.blue / 255]
  texCoord_arguments : ∃ uv, m.uvs[l]? = some uv ∧ texCoord.arguments = floatWords [uv.u, uv.v]
  /-- All three stand in their places among the lines of the mesh. -/
  vertex_line : vertex.line = object.line + 2 + l
  texCoord_line : texCoord.line = object.line + 2 + m.positions.size + l
  face_line : face.line = object.line + 2 + 2 * m.positions.size + j
  vertex_lt : vertex.line < face.line
  texCoord_lt : texCoord.line < face.line

section Scene

variable {s : Scene} {library : String} (hms : ∀ m ∈ s.meshes, m.Complete)
  (hnames : ∀ a ∈ s.materials, '\n' ∉ a.name.toList) (hlibrary : '\n' ∉ library.toList)

include hnames hlibrary

theorem statements_objText (key : String) :
    statements key (objText s library) = statementsOf key 0 (objLines s library) :=
  statements_joinLines (oneLine_objLines hnames hlibrary) key

include hms

theorem countsRead : CountsRead (objText s library) s := by
  have hall : ∀ m ∈ s.meshes.toList, m.Complete := fun m hm => hms m (Array.mem_toList_iff.mp hm)
  have hcount (key : String) (hcounts : "#" ≠ key) (hlib : "mtllib" ≠ key) :
      (statements key (objText s library)).length =
        (s.meshes.toList.map (lineCount key)).sum := by
    rw [statements_objText hnames hlibrary, length_statementsOf, objLines, keyCount_append,
      keyCount_meshesLines hall]
    simp [keyCount, ObjLine.keyword, hcounts, hlib]
  constructor
  · have hlines : ∀ line ∈ (objLines s library).map ObjLine.text, '\n' ∉ line.toList := by
      intro line hline
      obtain ⟨l, hl, rfl⟩ := List.mem_map.mp hline
      exact (oneLine_objLines hnames hlibrary l hl).not_mem_text
    rw [objText, textLines_joinLines hlines, ← faceCount_eq]
    rfl
  all_goals simp [hcount, vertexTotal, faceTotal]

variable {i k : Nat} {m : Mesh} (hm : s.meshes[i]? = some m)

include hm

theorem object_line : (statements "o" (objText s library))[i]? =
    some ⟨(linesBefore s library i).length, (ObjLine.object i).arguments⟩ := by
  have hi : i < s.meshes.size := (Array.getElem?_eq_some_iff.mp hm).1
  have hcount : keyCount "o" (linesBefore s library i) = i := by
    simp [keyCount_linesBefore hms, Nat.min_eq_left (Nat.le_of_lt hi)]
  obtain ⟨after, hlines⟩ := objLines_eq library hm
  rw [headLines, ← List.singleton_append, List.append_assoc] at hlines
  have hkeyword : ∀ l ∈ [ObjLine.object i], l.keyword = "o" := by simp [ObjLine.keyword]
  have hk : [ObjLine.object i][0]? = some (.object i) := rfl
  have hfound := getElem?_statementsOf_of_forall hlines hkeyword hk
  rw [hcount, ← statements_objText hnames hlibrary, Nat.add_zero, Nat.add_zero] at hfound
  exact hfound

theorem vertex_line {p : Position} {q : Colour} (hp : m.positions[k]? = some p)
    (hq : m.colours[k]? = some q) :
    numbered? "v" (objText s library) (vertexTotal (s.meshes.toList.take i) + k + 1) =
      some ⟨(linesBefore s library i).length + 2 + k, (ObjLine.vertex p q).arguments⟩ := by
  have hcount : keyCount "v" (linesBefore s library i ++ headLines s.materials i m) =
      vertexTotal (s.meshes.toList.take i) := by
    simp [keyCount_linesBefore hms, keyCount_headLines, vertexTotal]
  have hk : (vertexLines m)[k]? = some (.vertex p q) :=
    List.getElem?_zipWith_eq_some.mpr ⟨p, q, by simpa using hp, by simpa using hq, rfl⟩
  obtain ⟨after, hlines⟩ := objLines_eq library hm
  rw [← List.append_assoc] at hlines
  have hfound := getElem?_statementsOf_of_forall hlines (keyword_vertexLines m) hk
  rw [hcount, ← statements_objText hnames hlibrary, List.length_append, length_headLines] at hfound
  rw [numbered?_succ, hfound]

theorem texCoord_line {uv : TexCoord} (huv : m.uvs[k]? = some uv) :
    numbered? "vt" (objText s library) (vertexTotal (s.meshes.toList.take i) + k + 1) =
      some ⟨(linesBefore s library i).length + 2 + m.positions.size + k,
        (ObjLine.texCoord uv).arguments⟩ := by
  have hcomplete : m.Complete := hms m (Array.mem_of_getElem? hm)
  have hcount : keyCount "vt" (linesBefore s library i ++ headLines s.materials i m ++
      vertexLines m) = vertexTotal (s.meshes.toList.take i) := by
    simp [keyCount_linesBefore hms, keyCount_headLines, keyCount_of_forall (keyword_vertexLines m),
      vertexTotal]
  have hk : (texCoordLines m)[k]? = some (.texCoord uv) := by
    simp [texCoordLines, huv]
  obtain ⟨after, hlines⟩ := objLines_eq library hm
  rw [← List.append_assoc, ← List.append_assoc] at hlines
  have hfound := getElem?_statementsOf_of_forall hlines (keyword_texCoordLines m) hk
  rw [hcount, ← statements_objText hnames hlibrary, List.length_append, List.length_append,
    length_headLines, length_vertexLines hcomplete, Mesh.vertexCount] at hfound
  rw [numbered?_succ, hfound]

theorem face_line {t : Triangle UInt32} (ht : m.faces[k]? = some t) :
    (statements "f" (objText s library))[faceTotal (s.meshes.toList.take i) + k]? =
      some ⟨(linesBefore s library i).length + 2 + 2 * m.positions.size + k,
        (ObjLine.face (t.map fun n =>
          n.toNat + (1 + vertexTotal (s.meshes.toList.take i)))).arguments⟩ := by
  have hcomplete : m.Complete := hms m (Array.mem_of_getElem? hm)
  have hcount : keyCount "f" (linesBefore s library i ++ headLines s.materials i m ++
      vertexLines m ++ texCoordLines m) = faceTotal (s.meshes.toList.take i) := by
    simp [keyCount_linesBefore hms, keyCount_headLines, keyCount_of_forall (keyword_vertexLines m),
      keyCount_of_forall (keyword_texCoordLines m), faceTotal]
  obtain ⟨after, hlines⟩ := objLines_eq library hm
  rw [← List.append_assoc, ← List.append_assoc, ← List.append_assoc] at hlines
  have hk : (faceLines (1 + vertexTotal (s.meshes.toList.take i)) m)[k]? = some (.face (t.map
      fun n => n.toNat + (1 + vertexTotal (s.meshes.toList.take i)))) := by
    simp [faceLines, ht]
  have hfound := getElem?_statementsOf_of_forall hlines (keyword_faceLines _ m) hk
  have hlength : (linesBefore s library i ++ headLines s.materials i m ++ vertexLines m ++
      texCoordLines m).length = (linesBefore s library i).length + 2 + 2 * m.positions.size := by
    rw [List.length_append, List.length_append, List.length_append, length_headLines,
      length_vertexLines hcomplete, length_texCoordLines hcomplete, Mesh.vertexCount]
    omega
  rw [hcount, ← statements_objText hnames hlibrary, hlength] at hfound
  exact hfound

/-- The corner of a face is read as the number of the vertex and coordinates it was made of. -/
theorem cornerRead {j c : Nat} {t : Triangle UInt32} {l : UInt32} (ht : m.faces[j]? = some t)
    (hl : t.toList[c]? = some l) : ∃ object vertex texCoord face n,
      CornerRead (objText s library) (s.meshes.toList.take i) m j c l.toNat
        object vertex texCoord face n := by
  have hcomplete : m.Complete := hms m (Array.mem_of_getElem? hm)
  have hlt : l.toNat < m.positions.size :=
    hcomplete.face_lt t (Array.mem_of_getElem? ht) l (List.mem_of_getElem? hl)
  have hi : i < s.meshes.size := (Array.getElem?_eq_some_iff.mp hm).1
  obtain ⟨p, hp⟩ : ∃ p, m.positions[l.toNat]? = some p := ⟨_, Array.getElem?_eq_getElem hlt⟩
  obtain ⟨q, hq⟩ : ∃ q, m.colours[l.toNat]? = some q :=
    ⟨_, Array.getElem?_eq_getElem (hcomplete.colours_size ▸ hlt)⟩
  obtain ⟨uv, huv⟩ : ∃ uv, m.uvs[l.toNat]? = some uv :=
    ⟨_, Array.getElem?_eq_getElem (hcomplete.uvs_size ▸ hlt)⟩
  have hobject := object_line hms hnames hlibrary hm
  have hvertex := vertex_line hms hnames hlibrary hm hp hq
  have htexCoord := texCoord_line hms hnames hlibrary hm huv
  have hface := face_line hms hnames hlibrary hm ht
  generalize (linesBefore s library i).length = start at hobject hvertex htexCoord hface
  rw [ObjLine.arguments_vertex] at hvertex
  rw [ObjLine.arguments_texCoord] at htexCoord
  have hearlier : (s.meshes.toList.take i).length = i := by
    rw [List.length_take, Array.length_toList, Nat.min_eq_left (Nat.le_of_lt hi)]
  have hnumber : l.toNat + (1 + vertexTotal (s.meshes.toList.take i)) =
      vertexTotal (s.meshes.toList.take i) + l.toNat + 1 := by omega
  exact ⟨⟨start, _⟩, ⟨start + 2 + l.toNat, floatWords _⟩,
    ⟨start + 2 + m.positions.size + l.toNat, floatWords _⟩,
    ⟨start + 2 + 2 * m.positions.size + j, _⟩, vertexTotal (s.meshes.toList.take i) + l.toNat + 1,
    { object_eq := hearlier.symm ▸ hobject
      face_eq := hface
      corner_eq := by simp [ObjLine.arguments_face, hl, hnumber, ObjLine.corner?_cornerWord]
      vertex_eq := hvertex
      texCoord_eq := htexCoord
      vertex_arguments := ⟨p, q, hp, hq, rfl⟩
      texCoord_arguments := ⟨uv, huv, rfl⟩
      vertex_line := rfl
      texCoord_line := rfl
      face_line := rfl
      vertex_lt := by dsimp only; omega
      texCoord_lt := by dsimp only; omega }⟩

end Scene

end Wavefront

/-! ### Decoded scenes -/

theorem Mesh.Represents.complete {store : Array Vertex} {b : Batch} {m : Mesh}
    (h : m.Represents store b) : m.Complete where
  colours_size := h.colours_size
  uvs_size := h.uvs_size
  face_lt t ht l hl := by
    obtain ⟨j, hj⟩ := Array.mem_iff_getElem?.mp ht
    obtain ⟨c, hc⟩ := List.mem_iff_getElem?.mp hl
    obtain ⟨-, -, -, hlt⟩ := h.face j t hj c l hc
    exact hlt

namespace Model

variable {m : Model} {codec : Codec} {limit : Nat} {out : Decoded}

/-- A mesh is made from a batch that stands when all commands are executed. -/
theorem exists_batch_of_decode (h : (m.decode codec limit).result = .ok out) {mesh : Mesh}
    (hmesh : mesh ∈ out.scene.meshes) : ∃ (p : PlacedBatch) (pool : Array TexCoord),
      p.batch ∈ (Decoder.before m codec m.commands.size).recording.batches.toList ∧
      p.mesh? m.vertices pool = some mesh := by
  obtain ⟨r, hr, hscene, -⟩ := decode_eq_ok h
  obtain ⟨rfl, -⟩ := Decoder.run_eq_ok hr
  rw [hscene, Decoder.scene, Recording.meshes, List.mem_toArray, List.mem_filterMap] at hmesh
  obtain ⟨p, hp, hmesh⟩ := hmesh
  refine ⟨p, _, ?_, hmesh⟩
  rw [← Decoder.finish_recording (m := m), ← Recording.batches_placed]
  exact List.mem_map_of_mem hp

/-- The materials are the one for no texture and one for each first use of a texture. -/
theorem exists_uses_of_decode (h : (m.decode codec limit).result = .ok out) :
    ∃ uses, Decoder.Catalogued m codec m.commands.size uses ∧
      out.scene.materials.toList = .null :: uses.map (Decoder.Use.material m codec) := by
  obtain ⟨r, hr, hscene, -⟩ := decode_eq_ok h
  obtain ⟨rfl, -⟩ := Decoder.run_eq_ok hr
  obtain ⟨uses, huses⟩ := Decoder.exists_catalogued m codec m.commands.size
  exact ⟨uses, huses, by rw [hscene, Decoder.scene, Decoder.finish_table, huses.materials_eq]⟩

theorem complete_of_decode (h : (m.decode codec limit).result = .ok out) :
    ∀ mesh ∈ out.scene.meshes, mesh.Complete := by
  intro mesh hmesh
  obtain ⟨p, pool, hmem, hmesh⟩ := exists_batch_of_decode h hmesh
  have hbatch := Decoder.vertices_before m.commands.size p.batch hmem
  cases hempty : p.batch.isEmpty with
  | true => simp [PlacedBatch.mesh?, hempty] at hmesh
  | false =>
    simp only [PlacedBatch.mesh?, hempty, Bool.false_eq_true, if_false, Option.some.injEq] at hmesh
    rw [← hmesh]
    refine (Mesh.represents_ofBatch _ p.offset hempty (fun v hv => (hbatch v hv).1)
      fun v hv => ?_).complete
    have := (hbatch v hv).2
    omega

theorem not_mem_name_of_decode (h : (m.decode codec limit).result = .ok out) :
    ∀ a ∈ out.scene.materials, '\n' ∉ a.name.toList := by
  intro a ha
  obtain ⟨uses, -, hmaterials⟩ := exists_uses_of_decode h
  rw [← Array.mem_toList_iff, hmaterials, List.mem_cons, List.mem_map] at ha
  rcases ha with rfl | ⟨u, -, rfl⟩
  · decide
  · have hdigits : '\n' ∉ Nat.toDigits 10 u.texture :=
      (isNumber_toDigits u.texture).not_mem (by decide)
    simp [Decoder.Use.material, Material.forTexture, Numeral.decimal, Numeral.zeroFilled, hdigits]

end Model

namespace Wavefront

/-- The text of a scene of complete meshes, whose names have no line feeds, is read as what was
written: the counts, and for every corner of every face the one number by which the vertex and
the coordinates of that corner are found. The scene of every model that decodes is such a scene. -/
theorem objText_reads :
    (∀ (s : Scene) (library : String), (∀ m ∈ s.meshes, m.Complete) →
      (∀ a ∈ s.materials, '\n' ∉ a.name.toList) → '\n' ∉ library.toList →
      CountsRead (objText s library) s ∧
      ∀ (i j c : Nat) (m : Mesh) (t : Triangle UInt32) (l : UInt32), s.meshes[i]? = some m →
        m.faces[j]? = some t → t.toList[c]? = some l → ∃ object vertex texCoord face n,
          CornerRead (objText s library) (s.meshes.toList.take i) m j c l.toNat
            object vertex texCoord face n) ∧
    (∀ (m : Model) (codec : Codec) (limit : Nat) (out : Decoded),
      (m.decode codec limit).result = .ok out →
      (∀ mesh ∈ out.scene.meshes, mesh.Complete) ∧
      ∀ a ∈ out.scene.materials, '\n' ∉ a.name.toList) := by
  refine ⟨fun s library hms hnames hlibrary => ⟨countsRead hms hnames hlibrary, ?_⟩, ?_⟩
  · intro i j c m t l hm ht hl
    exact cornerRead hms hnames hlibrary hm ht hl
  · intro m codec limit out h
    exact ⟨Model.complete_of_decode h, Model.not_mem_name_of_decode h⟩

/-- A face of one vertex, a mesh without any, and a face of three vertices. -/
def sampleScene : Scene where
  materials := #[.null]
  meshes := #[
    { material := 0, indexOffset := 0, positions := #[.origin], colours := #[.white],
      uvs := #[.zero], faces := #[⟨0, 0, 0⟩] },
    { material := 0, indexOffset := 1 },
    { material := 0, indexOffset := 1, positions := .replicate 3 .origin,
      colours := .replicate 3 .white, uvs := .replicate 3 .zero, faces := #[⟨2, 1, 0⟩] }]

theorem objText_reads_sample :
    CountsRead (objText sampleScene "scene.mtl") sampleScene ∧
    (∃ object vertex texCoord face n, CornerRead (objText sampleScene "scene.mtl")
      (sampleScene.meshes.toList.take 2) sampleScene.meshes[2] 0 0 2
      object vertex texCoord face n) ∧
    ∃ out, (Model.sampleReach.decode .packed 5).result = .ok out ∧
      (∀ mesh ∈ out.scene.meshes, mesh.Complete) ∧
      ∀ a ∈ out.scene.materials, '\n' ∉ a.name.toList := by
  obtain ⟨hcounts, hcorners⟩ := objText_reads.1 sampleScene "scene.mtl" (by decide) (by decide)
    (by decide)
  exact ⟨hcounts, hcorners 2 0 0 _ _ _ rfl rfl rfl,
    _, rfl, objText_reads.2 Model.sampleReach .packed 5 _ rfl⟩

end Wavefront

end DisplayList

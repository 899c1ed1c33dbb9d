import DisplayList.Proofs.Recording
import DisplayList.Scene
import Mathlib.Data.List.Find

/-!
# What the loops of assembly come to

The bounds of a batch are kept as its corners come, the vertices of a mesh are filled in by two
passes, and the meshes are made one after the other with an offset handed on. Here each of these
loops is put into one expression: the bounds are the least and the greatest vertex, a mesh is a
`cut` out of the store, and the meshes are those of the placed batches.
-/
namespace DisplayList

/-- Of two words the greater one is the least bound of both. -/
instance lawfulOrderMaxWord : Std.LawfulOrderMax UInt32 where
  max_le_iff a b c := by
    simp only [max, UInt32.le_iff_toNat_le]
    split <;> omega
  max_eq_or a b := by
    simp only [max, UInt32.le_iff_toNat_le]
    split <;> simp

namespace Batch

variable {b : Batch} {v : UInt32}

/-! ### The bounds of a batch -/

theorem lowest?_eq_min? (b : Batch) : b.lowest? = b.vertices.min? := by
  have hfold (lowest : UInt32) (vs : List UInt32) :
      vs.foldl lower (some lowest) = some (vs.foldl min lowest) := by
    induction vs generalizing lowest with
    | nil => rfl
    | cons v vs ih => exact ih (min lowest v)
  rw [lowest?]
  cases b.vertices with
  | nil => rfl
  | cons v vs => exact hfold v vs

theorem highest?_eq_max? (b : Batch) : b.highest? = b.vertices.max? := by
  have hfold (highest : UInt32) (vs : List UInt32) :
      vs.foldl raise (some highest) = some (vs.foldl max highest) := by
    induction vs generalizing highest with
    | nil => rfl
    | cons v vs ih => exact ih (max highest v)
  rw [highest?]
  cases b.vertices with
  | nil => rfl
  | cons v vs => exact hfold v vs

/-- The lowest vertex can be kept while faces are added. -/
theorem lowest?_addFace (b : Batch) (face : Triangle Corner) : (b.addFace face).lowest? =
    lower (lower (lower b.lowest? face.a.vertex) face.b.vertex) face.c.vertex := by
  rw [lowest?, vertices_addFace, List.foldl_append]
  rfl

theorem highest?_addFace (b : Batch) (face : Triangle Corner) : (b.addFace face).highest? =
    raise (raise (raise b.highest? face.a.vertex) face.b.vertex) face.c.vertex := by
  rw [highest?, vertices_addFace, List.foldl_append]
  rfl

theorem lowest?_eq_some_iff :
    b.lowest? = some v ↔ v ∈ b.vertices ∧ ∀ w ∈ b.vertices, v ≤ w := by
  rw [lowest?_eq_min?]
  exact List.min?_eq_some_iff

theorem highest?_eq_some_iff :
    b.highest? = some v ↔ v ∈ b.vertices ∧ ∀ w ∈ b.vertices, w ≤ v := by
  rw [highest?_eq_max?]
  exact List.max?_eq_some_iff

theorem lowest?_eq_none_iff : b.lowest? = none ↔ b.vertices = [] := by
  rw [lowest?_eq_min?]
  exact List.min?_eq_none_iff

theorem highest?_eq_none_iff : b.highest? = none ↔ b.vertices = [] := by
  rw [highest?_eq_max?]
  exact List.max?_eq_none_iff

theorem vertices_eq_nil_iff : b.vertices = [] ↔ b.isEmpty = true := by
  rw [← List.length_eq_zero_iff, length_vertices, isEmpty, Array.isEmpty_iff_size_eq_zero]
  omega

theorem isEmpty_iff_lowest? : b.isEmpty = true ↔ b.lowest? = none := by
  rw [lowest?_eq_none_iff, vertices_eq_nil_iff]

theorem isEmpty_of_lowest? (h : b.lowest? = some v) : b.isEmpty = false := by
  have hne : ¬ b.isEmpty = true := by rw [isEmpty_iff_lowest?, h]; exact Option.some_ne_none v
  simpa using hne

theorem exists_lowest (h : b.isEmpty = false) : ∃ lowest, b.lowest? = some lowest := by
  rw [← Option.ne_none_iff_exists', ne_eq, lowest?_eq_none_iff, vertices_eq_nil_iff, h]
  exact Bool.false_ne_true

theorem exists_highest (h : b.isEmpty = false) : ∃ highest, b.highest? = some highest := by
  rw [← Option.ne_none_iff_exists', ne_eq, highest?_eq_none_iff, vertices_eq_nil_iff, h]
  exact Bool.false_ne_true

/-- Where there is a lowest vertex there is a highest one. -/
theorem exists_highest_of_lowest? (h : b.lowest? = some v) :
    ∃ highest, b.highest? = some highest :=
  exists_highest (isEmpty_of_lowest? h)

end Batch

/-! ### The two passes over a mesh -/

namespace Mesh

variable {vertices : Array Vertex} {pool : Array TexCoord} {offset : UInt32}

theorem toNat_sub_add_toNat {v start : UInt32} (h : start ≤ v) :
    (v - start).toNat + start.toNat = v.toNat := by
  have hle := UInt32.le_iff_toNat_le.mp h
  rw [UInt32.toNat_sub_of_le _ _ h]
  omega

theorem visit_eq (ls : Array LocalVertex) (c : Corner) : visit vertices pool offset ls c =
    if isVisited ls (c.vertex - offset).toNat then ls
    else ls.modify (c.vertex - offset).toNat fun _ =>
      .visit pool (Model.vertexAt vertices c.vertex.toNat) c.uv := rfl

theorem fill_eq (ls : Array LocalVertex) (n : Nat) : fill vertices offset ls n =
    if isVisited ls n then ls
    else ls.modify n (·.hold (Model.vertexAt vertices (offset.toNat + n))) := rfl

/-- A vertex that has not been visited is changed, and no other one. -/
theorem getElem?_unless_visited (ls : Array LocalVertex) (f : LocalVertex → LocalVertex)
    (n l : Nat) : (if isVisited ls n then ls else ls.modify n f)[l]? =
      ls[l]?.map fun s => if n = l ∧ s.visited = false then f s else s := by
  by_cases hn : n = l
  · subst hn
    cases hl : ls[n]? with
    | none => simp [isVisited, hl, Array.getElem?_modify]
    | some s => cases hs : s.visited <;> simp [isVisited, hl, hs, Array.getElem?_modify]
  · split <;> simp [hn, Array.getElem?_modify]

/-- The first pass leaves each vertex to the first corner there. -/
theorem getElem?_visits (ls : Array LocalVertex) (corners : List Corner) (l : Nat) :
    (corners.foldl (visit vertices pool offset) ls)[l]? = ls[l]?.map fun s =>
      if s.visited then s
      else (corners.find? fun c => (c.vertex - offset).toNat = l).elim s fun c =>
        .visit pool (Model.vertexAt vertices c.vertex.toNat) c.uv := by
  induction corners generalizing ls with
  | nil => simp
  | cons c corners ih =>
    rw [List.foldl_cons, ih, visit_eq, getElem?_unless_visited, Option.map_map, List.find?_cons]
    refine congrArg (ls[l]?.map ·) (funext fun s => ?_)
    by_cases hc : (c.vertex - offset).toNat = l
    · cases hs : s.visited <;> simp [hc, hs, LocalVertex.visit]
    · simp [hc]

/-- The second pass fills in the vertices that no corner has visited. -/
theorem getElem?_fills (ls : Array LocalVertex) (count l : Nat) :
    ((List.range count).foldl (fill vertices offset) ls)[l]? = ls[l]?.map fun s =>
      if s.visited = false ∧ l < count then
        s.hold (Model.vertexAt vertices (offset.toNat + l))
      else s := by
  induction count with
  | zero => simp
  | succ count ih =>
    rw [List.range_succ, List.foldl_append, List.foldl_cons, List.foldl_nil, fill_eq,
      getElem?_unless_visited, ih, Option.map_map]
    refine congrArg (ls[l]?.map ·) (funext fun s => ?_)
    by_cases hl : count = l
    · cases hs : s.visited <;> simp [hl, hs, LocalVertex.hold]
    · have hlt : l < count + 1 ↔ l < count := by omega
      simp [hl, hlt]

/-- The coordinates of the first corner at a vertex counted from `start`, zero if there is none. -/
def firstUv (pool : Array TexCoord) (start : UInt32) (corners : List Corner) (l : Nat) : TexCoord :=
  ((corners.find? fun c => (c.vertex - start).toNat = l).bind fun c => pool[c.uv]?).getD .zero

/-- The mesh of a batch over the vertices from `start` on, of which there are `size`. -/
def cut (vertices : Array Vertex) (pool : Array TexCoord) (start : UInt32) (size : Nat)
    (b : Batch) : Mesh :=
  let here := (Array.range size).map fun n => Model.vertexAt vertices (start.toNat + n)
  { material := b.material
    indexOffset := start
    positions := here.map Vertex.position
    colours := here.map Vertex.colour
    uvs := (Array.range size).map (firstUv pool start b.corners)
    faces := b.triangles.map fun t => t.map fun c => c.vertex - start }

/-- Both passes together: a vertex takes its coordinates from the first corner there, and whether
there is one or not, it takes position and colour from the store. -/
theorem fills_visits (vertices : Array Vertex) (pool : Array TexCoord) (size : Nat)
    {start : UInt32} {corners : List Corner} (hlow : ∀ c ∈ corners, start ≤ c.vertex) :
    (List.range size).foldl (fill vertices start)
        (corners.foldl (visit vertices pool start) (.replicate size {})) =
      (Array.range size).map fun l =>
        { position := (Model.vertexAt vertices (start.toNat + l)).position
          colour := (Model.vertexAt vertices (start.toNat + l)).colour
          uv := firstUv pool start corners l
          visited := (corners.find? fun c => (c.vertex - start).toNat = l).isSome } := by
  refine Array.ext_getElem? fun l => ?_
  rw [getElem?_fills, getElem?_visits, Array.getElem?_replicate, Array.getElem?_map,
    Array.getElem?_range]
  by_cases hl : l < size
  · cases hfind : corners.find? fun c => (c.vertex - start).toNat = l with
    | none => simp [hl, hfind, firstUv, LocalVertex.hold]
    | some c =>
      have hlocal := toNat_sub_add_toNat (hlow c (List.mem_of_find?_eq_some hfind))
      have hat : (c.vertex - start).toNat = l := by simpa using List.find?_some hfind
      have hvertex : c.vertex.toNat = start.toNat + l := by omega
      simp [hl, hfind, firstUv, LocalVertex.visit, hvertex]
  · simp [hl]

variable {b : Batch} {lowest highest : UInt32}

theorem ofBatch_eq (hlow : b.lowest? = some lowest) (hhigh : b.highest? = some highest)
    (vertices : Array Vertex) (pool : Array TexCoord) (offset : UInt32) :
    ofBatch vertices pool offset b =
      let start := min offset lowest
      let size := (highest - start + 1).toNat
      let filled := (List.range size).foldl (fill vertices start)
        (b.corners.foldl (visit vertices pool start) (.replicate size {}))
      { material := b.material
        indexOffset := start
        positions := filled.map LocalVertex.position
        colours := filled.map LocalVertex.colour
        uvs := filled.map LocalVertex.uv
        faces := b.triangles.map fun t => t.map fun c => c.vertex - start } := by
  unfold ofBatch ofBatchBy
  rw [hlow, hhigh]
  simp only [Arithmetic.plain_subWords, Arithmetic.plain_addWords, pure_bind, Id.run_bind,
    List.idRun_foldlM, Array.idRun_mapM, Id.run_pure]
  rfl

theorem ofBatch_eq_cut (hlow : b.lowest? = some lowest) (hhigh : b.highest? = some highest)
    (vertices : Array Vertex) (pool : Array TexCoord) (offset : UInt32) :
    ofBatch vertices pool offset b =
      cut vertices pool (min offset lowest) (highest - min offset lowest + 1).toNat b := by
  have hstart : ∀ c ∈ b.corners, min offset lowest ≤ c.vertex := fun c hc =>
    Std.le_trans Std.min_le_right
      ((Batch.lowest?_eq_some_iff.mp hlow).2 c.vertex (List.mem_map_of_mem hc))
  rw [ofBatch_eq hlow hhigh]
  simp only [fills_visits vertices pool _ hstart, cut, Array.map_map]
  rfl

/-- A batch without faces comes to a mesh without vertices. -/
theorem ofBatch_of_lowest?_eq_none (hlow : b.lowest? = none) (vertices : Array Vertex)
    (pool : Array TexCoord) (offset : UInt32) :
    ofBatch vertices pool offset b = { material := b.material, indexOffset := offset } := by
  unfold ofBatch ofBatchBy
  rw [hlow]
  rfl

theorem material_ofBatch (vertices : Array Vertex) (pool : Array TexCoord) (offset : UInt32)
    (b : Batch) : (ofBatch vertices pool offset b).material = b.material := by
  cases hlow : b.lowest? with
  | none => rw [ofBatch_of_lowest?_eq_none hlow]
  | some lowest =>
    obtain ⟨highest, hhigh⟩ := Batch.exists_highest_of_lowest? hlow
    rw [ofBatch_eq_cut hlow hhigh]
    rfl

/-- It does not matter whether the lowest vertex has been looked at before. -/
theorem ofBatch_lowered (hlow : b.lowest? = some lowest) (vertices : Array Vertex)
    (pool : Array TexCoord) (offset : UInt32) :
    ofBatch vertices pool (if lowest < offset then lowest else offset) b =
      ofBatch vertices pool offset b := by
  obtain ⟨highest, hhigh⟩ := Batch.exists_highest_of_lowest? hlow
  have hstart : min (if lowest < offset then lowest else offset) lowest = min offset lowest := by
    simp only [min, UInt32.lt_iff_toNat_lt, UInt32.le_iff_toNat_le]
    grind
  rw [ofBatch_eq_cut hlow hhigh, ofBatch_eq_cut hlow hhigh, hstart]

end Mesh

/-! ### The meshes of all batches -/

namespace Recording

variable (vertices : Array Vertex) (pool : Array TexCoord)

theorem addMesh_eq (meshes : Array Mesh) (entries : Array Entry) (p : PlacedBatch) :
    addMesh vertices pool (meshes, entries) p =
      (meshes ++ (p.mesh? vertices pool).toArray, entries ++ p.entry?.toArray) := by
  obtain ⟨position, b, offset⟩ := p
  unfold PlacedBatch.mesh? PlacedBatch.entry?
  cases hlow : b.lowest? with
  | none =>
    simp [addMesh, addMeshBy, hlow, Batch.isEmpty_iff_lowest?.mpr hlow]
  | some lowest =>
    have hmesh := Mesh.ofBatch_lowered hlow vertices pool offset
    unfold Mesh.ofBatch at hmesh
    simp only [addMesh, addMeshBy, hlow, Batch.isEmpty_of_lowest? hlow, Id.run_bind, hmesh]
    split <;> simp [Mesh.ofBatch]

theorem foldl_addMesh (meshes : Array Mesh) (entries : Array Entry) (ps : List PlacedBatch) :
    ps.foldl (addMesh vertices pool) (meshes, entries) =
      (meshes ++ (ps.filterMap (PlacedBatch.mesh? vertices pool)).toArray,
        entries ++ (ps.filterMap PlacedBatch.entry?).toArray) := by
  induction ps generalizing meshes entries with
  | nil => simp
  | cons p ps ih =>
    rw [List.foldl_cons, addMesh_eq, ih, List.filterMap_cons, List.filterMap_cons]
    cases p.mesh? vertices pool <;> cases p.entry? <;> simp

theorem assemble_eq_foldl (r : Recording) : r.assemble vertices =
    ((r.placed.foldl (addMesh vertices r.pool) (#[], #[])).1,
      (r.placed.foldl (addMesh vertices r.pool) (#[], #[])).2.toList) := by
  unfold assemble assembleBy
  rw [Id.run_bind, Id.run_bind, List.idRun_foldlM]
  rfl

/-- The loop over the batches makes the meshes of the placed batches and records what there is to
record about them. -/
theorem assemble_eq (r : Recording) :
    r.assemble vertices = (r.meshes vertices, r.placementJournal) := by
  rw [assemble_eq_foldl, foldl_addMesh]
  simp [meshes, placementJournal]

end Recording

/-! ### The scene -/

/-- What a finished run comes to. -/
def Decoder.decoded (m : Model) (r : Decoder) : Decoded :=
  ⟨r.scene m, r.diagnostics ++ r.recording.placementJournal.diagnostics, r.table.requests⟩

namespace Model

theorem decode_eq (m : Model) (codec : Codec) (limit : Nat) : m.decode codec limit = do
    let r ← Decoder.run m codec limit (.start m)
    Logged.recordAll r.recording.placementJournal
    Logged.note (.meshesAssembled (r.scene m).meshes.size (r.scene m).faceCount)
    return r.decoded m := by
  have hassemble (r : Decoder) : Id.run (m.assembleBy .plain r) = (do
      Logged.recordAll r.recording.placementJournal
      Logged.note (.meshesAssembled (r.scene m).meshes.size (r.scene m).faceCount)
      return r.decoded m) := by
    have hmade := r.recording.assemble_eq m.vertices
    unfold Recording.assemble at hmade
    rw [assembleBy, Id.run_bind, hmade]
    rfl
  unfold decode decodeBy
  rw [Id.run_bind, Logged.run_bindIn]
  exact congrArg _ (funext hassemble)

/-- A decode fails like its run, or gives what the run comes to. -/
theorem decode_result (m : Model) (codec : Codec) (limit : Nat) :
    (m.decode codec limit).result =
      (Decoder.run m codec limit (.start m)).result.map (Decoder.decoded m) := by
  rw [decode_eq]
  simp only [Logged.result_bind]
  cases (Decoder.run m codec limit (.start m)).result <;> rfl

end Model

end DisplayList

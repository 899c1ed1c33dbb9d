import DisplayList.Proofs.Reachability

/-!
# The first corner at a vertex

What a recording holds is said here without its pool: a batch by its material and by the faces
drawn into it, each corner with its own coordinates. A vertex of a mesh takes the coordinates of
the first corner that was drawn there into its batch, whatever comes later and whatever else the
pool holds.
-/
namespace DisplayList

/-- A corner as it is drawn: a vertex of the store and the coordinates for it. -/
structure DrawnCorner where
  vertex : UInt32
  uv : TexCoord
  deriving DecidableEq, Repr

/-- A batch by what was drawn into it. -/
structure DrawnBatch where
  material : Nat
  faces : List (Triangle DrawnCorner) := []
  deriving DecidableEq, Repr

namespace DrawnBatch

/-- All corners in the order in which they were drawn. -/
def corners (s : DrawnBatch) : List DrawnCorner :=
  s.faces.flatMap Triangle.toList

/-- The vertices of all corners. -/
def vertices (s : DrawnBatch) : List UInt32 :=
  s.corners.map DrawnCorner.vertex

/-- The coordinates of the first corner at a vertex, zero if there is none. -/
def uvAt (s : DrawnBatch) (n : Nat) : TexCoord :=
  ((s.corners.find? fun c => c.vertex.toNat = n).map DrawnCorner.uv).getD .zero

/-- A batch with more faces. -/
def draw (s : DrawnBatch) (faces : List (Triangle DrawnCorner)) : DrawnBatch :=
  { s with faces := s.faces ++ faces }

theorem draw_draw (s : DrawnBatch) (faces more : List (Triangle DrawnCorner)) :
    (s.draw faces).draw more = s.draw (faces ++ more) := by
  simp [draw]

@[simp] theorem draw_nil (s : DrawnBatch) : s.draw [] = s := by
  simp [draw]

variable {s : DrawnBatch}

theorem vertices_eq_nil (h : s.faces = []) : s.vertices = [] := by
  simp [vertices, corners, h]

/-- What is drawn later does not matter. -/
theorem uvAt_of_first {earlier later : List DrawnCorner} {c : DrawnCorner}
    (h : s.corners = earlier ++ c :: later) (hnot : ∀ e ∈ earlier, e.vertex ≠ c.vertex) :
    s.uvAt c.vertex.toNat = c.uv := by
  have hfind : (s.corners.find? fun e => e.vertex.toNat = c.vertex.toNat) = some c :=
    List.find?_eq_some_iff_append.mpr ⟨by simp, earlier, later, h, fun e he => by
      simpa [UInt32.toNat_inj] using hnot e he⟩
  rw [uvAt, hfind]
  rfl

theorem uvAt_of_none {n : Nat} (h : ∀ c ∈ s.corners, c.vertex.toNat ≠ n) : s.uvAt n = .zero := by
  rw [uvAt, List.find?_eq_none.mpr fun c hc => by simpa using h c hc]
  rfl

end DrawnBatch

/-- One thing to record: a batch is opened, or a face is drawn into the one that is open. -/
inductive RecordingStep
  | opened (material : Nat) (epoch : UInt32)
  | drawn (face : Triangle DrawnCorner)
  deriving DecidableEq, Repr

namespace RecordingStep

/-- The faces that are drawn before the next batch is opened. -/
def facesUntilOpened : List RecordingStep → List (Triangle DrawnCorner)
  | drawn face :: rest => face :: facesUntilOpened rest
  | _ => []

/-- What is drawn into each batch. Faces before the first one go into none. -/
def drawnBatches : List RecordingStep → List DrawnBatch
  | [] => []
  | opened material _ :: rest => ⟨material, facesUntilOpened rest⟩ :: drawnBatches rest
  | drawn _ :: rest => drawnBatches rest

end RecordingStep

/-! ### A batch and its pool -/

/-- A corner with its coordinates out of a pool. -/
def Corner.drawn (pool : Array TexCoord) (c : Corner) : DrawnCorner :=
  ⟨c.vertex, pool[c.uv]?.getD .zero⟩

namespace Batch

variable {b b' : Batch} {pool pool' : Array TexCoord}

/-- A batch with all its coordinates out of a pool. -/
def drawn (pool : Array TexCoord) (b : Batch) : DrawnBatch :=
  ⟨b.material, b.triangles.toList.map fun t => t.map (Corner.drawn pool)⟩

@[simp] theorem corners_drawn : (b.drawn pool).corners = b.corners.map (Corner.drawn pool) := by
  simp [drawn, DrawnBatch.corners, corners, List.flatMap_map, List.map_flatMap]

@[simp] theorem vertices_drawn : (b.drawn pool).vertices = b.vertices := by
  simp [DrawnBatch.vertices, vertices, Corner.drawn]

theorem uvAt_drawn (n : Nat) : (b.drawn pool).uvAt n =
    ((b.corners.find? fun c => c.vertex.toNat = n).bind fun c => pool[c.uv]?).getD .zero := by
  have hvertex : (fun c : DrawnCorner => decide (c.vertex.toNat = n)) ∘ Corner.drawn pool =
      fun c : Corner => decide (c.vertex.toNat = n) := rfl
  rw [DrawnBatch.uvAt, corners_drawn, List.find?_map, hvertex]
  cases b.corners.find? fun c => decide (c.vertex.toNat = n) with
  | none => rfl
  | some c => rfl

theorem vertices_congr (h : b'.drawn pool' = b.drawn pool) : b'.vertices = b.vertices := by
  have hdrawn := congrArg DrawnBatch.vertices h
  simpa only [vertices_drawn] using hdrawn

/-- A pool that has the same coordinates for all corners will do as well. -/
theorem drawn_congr (h : ∀ n ∈ b.uvs, pool'[n]? = pool[n]?) : b.drawn pool' = b.drawn pool := by
  simp only [drawn, DrawnBatch.mk.injEq, true_and]
  refine List.map_congr_left fun t ht => ?_
  have hcorner : ∀ c ∈ t.toList, Corner.drawn pool' c = Corner.drawn pool c := fun c hc => by
    rw [Corner.drawn, Corner.drawn, h c.uv (List.mem_map_of_mem (List.mem_flatMap.mpr ⟨t, ht, hc⟩))]
  simp only [Triangle.toList, List.mem_cons, List.not_mem_nil, or_false, forall_eq_or_imp,
    forall_eq] at hcorner
  simp [Triangle.map, hcorner]

@[simp] theorem drawn_addFace (face : Triangle Corner) :
    (b.addFace face).drawn pool = (b.drawn pool).draw [face.map (Corner.drawn pool)] := by
  simp [drawn, addFace, DrawnBatch.draw]

end Batch

/-! ### Recording step by step -/

namespace Recording

open RecordingStep

/-- Records one thing. -/
def step (r : Recording) : RecordingStep → Recording
  | .opened material epoch => r.openBatch material epoch
  | .drawn face => r.addTriangle (face.map DrawnCorner.vertex) (face.map DrawnCorner.uv)

/-- What a sequence of steps records. -/
def replay (steps : List RecordingStep) : Recording :=
  steps.foldl step {}

/-- A recording holds these batches, and its pool the coordinates of their corners and no more. -/
structure Holds (r : Recording) (bs : List DrawnBatch) : Prop where
  numbered : r.Numbered
  drawn_eq : r.batches.toList.map (Batch.drawn r.pool) = bs

variable {r : Recording} {bs older : List DrawnBatch} {s : DrawnBatch}

/-- The corners of a batch keep their coordinates when others come behind them. -/
theorem Numbered.drawn_congr (h : r.Numbered) {b : Batch} (hb : b ∈ r.batches.toList)
    {pool : Array TexCoord} (hpool : r.pool.toList <+: pool.toList) :
    b.drawn pool = b.drawn r.pool := by
  refine Batch.drawn_congr fun n hn => ?_
  have hmem : n ∈ r.batches.toList.flatMap Batch.uvs := List.mem_flatMap.mpr ⟨b, hb, hn⟩
  rw [h, List.mem_range, ← Array.length_toList] at hmem
  obtain ⟨more, hmore⟩ := hpool
  rw [← Array.getElem?_toList, ← hmore, List.getElem?_append_left hmem, Array.getElem?_toList]

theorem holds_opened (h : r.Holds bs) (material : Nat) (epoch : UInt32) :
    (r.step (.opened material epoch)).Holds (bs ++ [⟨material, []⟩]) where
  numbered := h.numbered.openBatch material epoch
  drawn_eq := by simp [step, h.drawn_eq, Batch.drawn]

/-- The coordinates of a face that goes behind a pool are read back out of it. -/
theorem drawn_faceAt {pool : Array TexCoord} {places : List TexCoord}
    (face : Triangle DrawnCorner)
    (hpool : pool.toList = places ++ (face.map DrawnCorner.uv).toList) :
    (faceAt (face.map DrawnCorner.vertex) places.length).map (Corner.drawn pool) = face := by
  have hplace (n : Nat) : pool[places.length + n]? = (face.map DrawnCorner.uv).toList[n]? := by
    rw [← Array.getElem?_toList, hpool, List.getElem?_append_right (Nat.le_add_right ..),
      Nat.add_sub_cancel_left]
  have hfirst := hplace 0
  rw [Nat.add_zero] at hfirst
  simp [faceAt, Triangle.map, Corner.drawn, hplace, hfirst, Triangle.toList]

/-- A face goes into the batch opened last, with the coordinates it came with. -/
theorem holds_drawn (h : r.Holds (older ++ [s])) (face : Triangle DrawnCorner) :
    (r.step (.drawn face)).Holds (older ++ [s.draw [face]]) := by
  obtain ⟨bs, last, hbs, rfl, hlast⟩ := List.map_eq_append_iff.mp h.drawn_eq
  obtain ⟨b, rfl, rfl⟩ := List.map_eq_singleton_iff.mp hlast
  have hpool : (r.step (.drawn face)).pool.toList = _ := pool_addTriangle hbs _ _
  have hbatches : (r.step (.drawn face)).batches.toList = _ := toList_addTriangle hbs _ _
  have hkept : ∀ b' ∈ bs ++ [b], b'.drawn (r.step (.drawn face)).pool = b'.drawn r.pool :=
    fun b' hb' => h.numbered.drawn_congr (hbs ▸ hb') ⟨_, hpool.symm⟩
  refine ⟨h.numbered.addTriangle hbs _ _, ?_⟩
  -- the pool has grown, but all places that were in use are still in front
  rw [hbatches, List.map_append, List.map_singleton, Batch.drawn_addFace, ← Array.length_toList,
    drawn_faceAt face hpool, hkept b (by simp),
    List.map_congr_left fun b' hb' => hkept b' (List.mem_append_left _ hb')]

/-- A face is lost while no batch is open. -/
theorem step_drawn_of_nil (h : r.Holds []) (face : Triangle DrawnCorner) :
    r.step (.drawn face) = r := by
  obtain ⟨batches, pool⟩ := r
  have hnil : batches = #[] := by simpa using h.drawn_eq
  simp [step, addTriangle_eq, hnil]

/-- From a recording with an open batch on: that batch gets the faces up to the next opening, and
the batches opened from there on come after it. -/
theorem holds_foldl (h : r.Holds (older ++ [s])) (steps : List RecordingStep) :
    (steps.foldl step r).Holds
      (older ++ s.draw (facesUntilOpened steps) :: drawnBatches steps) := by
  induction steps generalizing r older s with
  | nil => simpa [facesUntilOpened, drawnBatches] using h
  | cons next steps ih =>
    rw [List.foldl_cons]
    cases next with
    | opened material epoch =>
      -- the open batch joins the older ones, and the next one is open
      simpa [facesUntilOpened, drawnBatches, DrawnBatch.draw] using
        ih (holds_opened h material epoch)
    | drawn face =>
      simpa [facesUntilOpened, drawnBatches, DrawnBatch.draw_draw] using ih (holds_drawn h face)

theorem holds_foldl_of_nil (h : r.Holds []) (steps : List RecordingStep) :
    (steps.foldl step r).Holds (drawnBatches steps) := by
  induction steps generalizing r with
  | nil => exact h
  | cons next steps ih =>
    rw [List.foldl_cons]
    cases next with
    | opened material epoch =>
      have hopened : (r.step (.opened material epoch)).Holds ([] ++ [⟨material, []⟩]) :=
        holds_opened h material epoch
      simpa [drawnBatches, DrawnBatch.draw] using holds_foldl hopened steps
    | drawn face =>
      rw [step_drawn_of_nil h face]
      exact ih h

/-- Each batch of a recording holds the faces that were drawn while it was open. -/
theorem holds_replay (steps : List RecordingStep) : (replay steps).Holds (drawnBatches steps) :=
  holds_foldl_of_nil (r := {}) ⟨rfl, rfl⟩ steps

end Recording

/-! ### From the corners to the mesh -/

namespace Mesh

variable {store : Array Vertex} {b b' : Batch} {pool pool' : Array TexCoord} {offset : UInt32}

/-- A mesh shows what was drawn into a batch when it is placed at an offset: it starts there or at
the lowest vertex, whichever comes first, and has all vertices up to the highest one, each with
the coordinates of the first corner there. -/
structure Shows (store : Array Vertex) (offset : UInt32) (s : DrawnBatch) (mesh : Mesh) : Prop where
  empty : s.faces = [] → mesh = { material := s.material, indexOffset := offset }
  bounds : s.faces ≠ [] → ∃ lowest ∈ s.vertices, ∃ highest ∈ s.vertices,
    (∀ v ∈ s.vertices, lowest ≤ v ∧ v ≤ highest) ∧ mesh.indexOffset = min offset lowest ∧
      mesh.vertexCount = highest.toNat - mesh.indexOffset.toNat + 1
  material_eq : mesh.material = s.material
  colours_size : mesh.colours.size = mesh.vertexCount
  uvs_size : mesh.uvs.size = mesh.vertexCount
  position : ∀ l < mesh.vertexCount, mesh.positions[l]? =
    some (Model.vertexAt store (mesh.indexOffset.toNat + l)).position
  colour : ∀ l < mesh.vertexCount, mesh.colours[l]? =
    some (Model.vertexAt store (mesh.indexOffset.toNat + l)).colour
  first : ∀ l < mesh.vertexCount, ∀ earlier c later, s.corners = earlier ++ c :: later →
    c.vertex.toNat = mesh.indexOffset.toNat + l → (∀ e ∈ earlier, e.vertex ≠ c.vertex) →
    mesh.uvs[l]? = some c.uv
  unvisited : ∀ l < mesh.vertexCount,
    (∀ c ∈ s.corners, c.vertex.toNat ≠ mesh.indexOffset.toNat + l) → mesh.uvs[l]? = some .zero

/-- The coordinates of a vertex are those of the first corner drawn there. -/
theorem uvs_cut_drawn (pool : Array TexCoord) {start : UInt32} {size l : Nat}
    (hlow : ∀ v ∈ b.vertices, start ≤ v) (hl : l < size) :
    (cut store pool start size b).uvs[l]? = some ((b.drawn pool).uvAt (start.toNat + l)) := by
  rw [uvs_cut pool hlow hl, Batch.uvAt_drawn]

/-- A mesh cut between the bounds of a batch, or from the offset on if that comes before them,
shows the batch. -/
theorem shows_cut (pool : Array TexCoord) {lowest highest start : UInt32} {size : Nat}
    (hlowmem : lowest ∈ b.vertices) (hhighmem : highest ∈ b.vertices)
    (hbounds : ∀ v ∈ b.vertices, lowest ≤ v ∧ v ≤ highest) (hstart : start = min offset lowest)
    (hsize : start.toNat + size = highest.toNat + 1) :
    (cut store pool start size b).Shows store offset (b.drawn pool) := by
  have hlow : ∀ v ∈ b.vertices, start ≤ v := fun v hv =>
    hstart ▸ Std.le_trans Std.min_le_right (hbounds v hv).1
  have hhigh := UInt32.le_iff_toNat_le.mp (hlow highest hhighmem)
  have hcount : (cut store pool start size b).vertexCount = size := by simp [cut, vertexCount]
  exact {
    empty h := by
      have hnil := DrawnBatch.vertices_eq_nil h
      rw [Batch.vertices_drawn] at hnil
      simp [hnil] at hlowmem
    bounds _ := by
      rw [Batch.vertices_drawn, hcount]
      refine ⟨lowest, hlowmem, highest, hhighmem, hbounds, hstart, ?_⟩
      change size = highest.toNat - start.toNat + 1
      omega
    material_eq := rfl
    colours_size := by simp [cut, vertexCount]
    uvs_size := by simp [cut, vertexCount]
    position l hl := by
      rw [hcount] at hl
      simp [cut, hl]
    colour l hl := by
      rw [hcount] at hl
      simp [cut, hl]
    first l hl earlier c later hc hat hnot := by
      rw [uvs_cut_drawn pool hlow (hcount ▸ hl)]
      exact congrArg some (hat ▸ DrawnBatch.uvAt_of_first hc hnot)
    unvisited l hl hnone := by
      rw [uvs_cut_drawn pool hlow (hcount ▸ hl)]
      exact congrArg some (DrawnBatch.uvAt_of_none hnone) }

/-- The mesh of a batch shows what was drawn into it, with the coordinates that its pool has. -/
theorem shows_ofBatch (store : Array Vertex) (pool : Array TexCoord) (offset : UInt32)
    (hword : ∀ v ∈ b.vertices, v.toNat + 1 < 2 ^ 32) :
    (ofBatch store pool offset b).Shows store offset (b.drawn pool) := by
  cases he : b.isEmpty with
  | true =>
    have hnil : (b.drawn pool).faces = [] := by simpa [Batch.drawn, Batch.isEmpty] using he
    rw [ofBatch_of_lowest?_eq_none (Batch.isEmpty_iff_lowest?.mp he)]
    exact {
      empty _ := rfl
      bounds h := absurd hnil h
      material_eq := rfl
      colours_size := rfl
      uvs_size := rfl
      position l hl := absurd hl (Nat.not_lt_zero l)
      colour l hl := absurd hl (Nat.not_lt_zero l)
      first l hl := absurd hl (Nat.not_lt_zero l)
      unvisited l hl := absurd hl (Nat.not_lt_zero l) }
  | false =>
    obtain ⟨lowest, hlowmem, highest, hhighmem, size, hbounds, hsize, hcut⟩ :=
      exists_cut he hword store pool offset
    rw [hcut]
    exact shows_cut pool hlowmem hhighmem hbounds rfl hsize

/-- Two cuts at one place that show the same faces are the same. -/
theorem cut_congr (h : b'.drawn pool' = b.drawn pool) {start : UInt32}
    (hlow : ∀ v ∈ b.vertices, start ≤ v) (store : Array Vertex) (size : Nat) :
    cut store pool' start size b' = cut store pool start size b := by
  have huvs : (cut store pool' start size b').uvs = (cut store pool start size b).uvs := by
    refine Array.ext_getElem? fun l => ?_
    by_cases hl : l < size
    · rw [uvs_cut_drawn pool hlow hl, uvs_cut_drawn pool' (Batch.vertices_congr h ▸ hlow) hl, h]
    · rw [Array.getElem?_eq_none (by simpa [cut] using hl),
        Array.getElem?_eq_none (by simpa [cut] using hl)]
  have hfaces := congrArg (fun s => s.faces.map fun f => f.map fun c => c.vertex - start) h
  simp only [cut, Mesh.mk.injEq, true_and] at huvs ⊢
  refine ⟨congrArg DrawnBatch.material h, huvs, Array.toList_inj.mp ?_⟩
  simpa [Batch.drawn, Function.comp_def, Triangle.map, Corner.drawn] using hfaces

/-- Nothing but what was drawn into a batch decides what its mesh looks like. -/
theorem ofBatch_congr (h : b'.drawn pool' = b.drawn pool) (store : Array Vertex)
    (offset : UInt32) : ofBatch store pool' offset b' = ofBatch store pool offset b := by
  have hvertices := Batch.vertices_congr h
  have hlow : b'.lowest? = b.lowest? := by
    rw [Batch.lowest?_eq_min?, hvertices, Batch.lowest?_eq_min?]
  have hhigh : b'.highest? = b.highest? := by
    rw [Batch.highest?_eq_max?, hvertices, Batch.highest?_eq_max?]
  cases hlowest : b.lowest? with
  | none =>
    rw [hlowest] at hlow
    have hmaterial : b'.material = b.material := congrArg DrawnBatch.material h
    rw [ofBatch_of_lowest?_eq_none hlow, ofBatch_of_lowest?_eq_none hlowest, hmaterial]
  | some lowest =>
    obtain ⟨highest, hhighest⟩ := Batch.exists_highest_of_lowest? hlowest
    rw [ofBatch_eq_cut hlowest hhighest, ofBatch_eq_cut (hlow.trans hlowest) (hhigh.trans hhighest)]
    exact cut_congr h (fun v hv =>
      Std.le_trans Std.min_le_right ((Batch.lowest?_eq_some_iff.mp hlowest).2 v hv)) store _

end Mesh

namespace Recording

open RecordingStep

/-- Whatever is recorded, and wherever a batch is then placed, its mesh shows the faces that were
drawn while it was open, each vertex with the coordinates of the first corner there. Other batches
do not matter: one with the same material and faces has the same mesh in every other recording. -/
theorem first_corners_decide (steps : List RecordingStep) (store : Array Vertex) (offset : UInt32)
    (k : Nat) (b : Batch) (hb : (replay steps).batches[k]? = some b)
    (hword : ∀ v ∈ b.vertices, v.toNat < 2 ^ 32 - 1) :
    ∃ s, (drawnBatches steps)[k]? = some s ∧
      (Mesh.ofBatch store (replay steps).pool offset b).Shows store offset s ∧
      ∀ steps' (k' : Nat) b', (replay steps').batches[k']? = some b' →
        (drawnBatches steps')[k']? = some s →
        Mesh.ofBatch store (replay steps').pool offset b' =
          Mesh.ofBatch store (replay steps).pool offset b := by
  have hdrawn {steps : List RecordingStep} {k : Nat} {b : Batch}
      (hb : (replay steps).batches[k]? = some b) :
      (drawnBatches steps)[k]? = some (b.drawn (replay steps).pool) := by
    rw [← (holds_replay steps).drawn_eq, List.getElem?_map, Array.getElem?_toList, hb]
    rfl
  refine ⟨_, hdrawn hb, Mesh.shows_ofBatch store _ offset fun v hv => ?_,
    fun steps' k' b' hb' hsame => ?_⟩
  · have := hword v hv
    omega
  · exact Mesh.ofBatch_congr (Option.some.inj ((hdrawn hb').symm.trans hsame)) store offset

/-- A face before any batch, a batch with vertices that several corners visit and with vertices
that none does, and another batch over the same vertices. -/
def sampleVisits : List RecordingStep :=
  [.drawn ⟨⟨2, ⟨7, 7⟩⟩, ⟨3, ⟨7, 7⟩⟩, ⟨4, ⟨7, 7⟩⟩⟩, .opened 1 1,
    .drawn ⟨⟨4, ⟨1, 0⟩⟩, ⟨2, ⟨2, 0⟩⟩, ⟨4, ⟨3, 0⟩⟩⟩, .drawn ⟨⟨6, ⟨4, 0⟩⟩, ⟨2, ⟨5, 0⟩⟩, ⟨4, ⟨6, 0⟩⟩⟩,
    .opened 0 2, .drawn ⟨⟨2, ⟨8, 8⟩⟩, ⟨3, ⟨8, 8⟩⟩, ⟨5, ⟨8, 8⟩⟩⟩]

theorem vertices_sampleVisits {b : Batch} (hb : (replay sampleVisits).batches[0]? = some b) :
    ∀ v ∈ b.vertices, v.toNat < 2 ^ 32 - 1 := by
  have hvertices : ((replay sampleVisits).batches[0]?).map Batch.vertices =
      some [4, 2, 4, 6, 2, 4] := rfl
  rw [hb, Option.map_some, Option.some.injEq] at hvertices
  simp [hvertices]

theorem first_corners_decide_gaps :
    ∃ b, (replay sampleVisits).batches[0]? = some b ∧
    (∀ v ∈ b.vertices, v.toNat < 2 ^ 32 - 1) ∧
    (Mesh.ofBatch (.replicate 5 {}) (replay sampleVisits).pool 3 b).uvs =
      #[⟨2, 0⟩, .zero, ⟨1, 0⟩, .zero, ⟨4, 0⟩] ∧
    ∃ s, (drawnBatches sampleVisits)[0]? = some s ∧
      (Mesh.ofBatch (.replicate 5 {}) (replay sampleVisits).pool 3 b).Shows (.replicate 5 {}) 3 s ∧
      ∀ steps' (k' : Nat) b', (replay steps').batches[k']? = some b' →
        (drawnBatches steps')[k']? = some s →
        Mesh.ofBatch (.replicate 5 {}) (replay steps').pool 3 b' =
          Mesh.ofBatch (.replicate 5 {}) (replay sampleVisits).pool 3 b :=
  ⟨_, rfl, vertices_sampleVisits rfl, by decide +kernel,
    first_corners_decide sampleVisits (.replicate 5 {}) 3 0 _ rfl (vertices_sampleVisits rfl)⟩

end Recording

end DisplayList

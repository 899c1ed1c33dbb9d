import DisplayList.Proofs.ExactRunning

/-!
# From file to scene without wrapping

Meshes reckon with the offset after the highest vertex, the number of vertices, and each vertex
counted from its mesh's offset. No difference is taken below the offset, since a mesh starts at its
lowest vertex at the latest, and vertices stay far below the greatest word. So all that is computed
from a file of less than four gibibytes less 512 bytes is exact, from its header to its meshes.
-/
namespace DisplayList

/-- Members treated without a failure are treated alike. -/
theorem Triangle.mapM_eq_ok {ε α β : Type} {f : α → Except ε β} {g : α → β} {t : Triangle α}
    (h : ∀ x ∈ t.toList, f x = .ok (g x)) : t.mapM f = .ok (t.map g) := by
  rw [mapM_eq_ok_iff, toList_map, List.forall₂_map_right_iff, List.forall₂_same]
  exact h

namespace Arithmetic.Sound

variable {ε : Type} {ar : Arithmetic (Except ε)} (h : ar.Sound)

include h

/-! ### Meshes -/

section Meshes

open Mesh

variable (vertices : Array Vertex) (pool : Array TexCoord) {offset : UInt32}

theorem visit (ls : Array LocalVertex) {c : Corner} (hc : offset ≤ c.vertex) :
    visitBy ar vertices pool offset ls c = .ok (Mesh.visit vertices pool offset ls c) := by
  rw [visitBy, h.subWords hc, ok_bind, visit_eq]
  dsimp only
  split <;> rfl

theorem fill (ls : Array LocalVertex) {n : Nat} (hn : n < 2 ^ 32) :
    fillBy ar vertices offset ls n = .ok (Mesh.fill vertices offset ls n) := by
  have hoffset := offset.toNat_lt
  rw [fillBy, h.addSizes (by omega), fill_eq]
  split <;> rfl

theorem faces {triangles : Array (Triangle Corner)}
    (hlow : ∀ c ∈ triangles.toList.flatMap Triangle.toList, offset ≤ c.vertex) :
    triangles.mapM (fun t => t.mapM fun c => ar.subWords c.vertex offset) =
      .ok (triangles.map fun t => t.map fun c => c.vertex - offset) := by
  have hface : ∀ t ∈ triangles.toList, t.mapM (fun c => ar.subWords c.vertex offset) =
      .ok (t.map fun c => c.vertex - offset) := fun t ht =>
    Triangle.mapM_eq_ok fun c hc => h.subWords (hlow c (List.mem_flatMap.mpr ⟨t, ht, hc⟩))
  rw [Array.mapM_eq_mapM_toList, mapM_eq_ok hface, ← Array.toList_map]
  rfl

/-- A mesh starts at its lowest vertex at the latest, and the vertex after its highest one is still
a word. -/
theorem ofBatch (offset : UInt32) {b : Batch} (hword : ∀ v ∈ b.vertices, v.toNat + 1 < 2 ^ 32) :
    ofBatchBy ar vertices pool offset b = .ok (Mesh.ofBatch vertices pool offset b) := by
  cases hlowest : b.lowest? with
  | none =>
    rw [ofBatch_of_lowest?_eq_none hlowest, ofBatchBy, hlowest]
    rfl
  | some lowest =>
    obtain ⟨highest, hhighest⟩ := Batch.exists_highest_of_lowest? hlowest
    obtain ⟨-, hlow⟩ := Batch.lowest?_eq_some_iff.mp hlowest
    obtain ⟨hmem, -⟩ := Batch.highest?_eq_some_iff.mp hhighest
    have hstart : ∀ v ∈ b.vertices, min offset lowest ≤ v := fun v hv =>
      Std.le_trans Std.min_le_right (hlow v hv)
    have hcorners : ∀ c ∈ b.corners, min offset lowest ≤ c.vertex := fun c hc =>
      hstart c.vertex (List.mem_map_of_mem hc)
    have hlocal := toNat_sub_add_toNat (hstart highest hmem)
    have hhighword := hword highest hmem
    have hsize := (highest - min offset lowest + 1).toNat_lt
    rw [ofBatch_eq hlowest hhighest, ofBatchBy, hlowest, hhighest]
    dsimp only
    rw [h.subWords (hstart highest hmem), ok_bind, h.addWords (by simp; omega), ok_bind,
      foldlM_eq_ok fun ls c hc => h.visit vertices pool ls (hcorners c hc), ok_bind,
      foldlM_eq_ok fun ls n hn => h.fill vertices ls (by have := List.mem_range.mp hn; omega),
      ok_bind, h.faces hcorners]
    rfl

end Meshes

/-! ### The scene -/

section Assembly

open Recording

/-- The offset after the highest vertex of a batch is a word. -/
theorem offsetsFrom {bs : List Batch} (next : UInt32)
    (hword : ∀ b ∈ bs, ∀ v ∈ b.vertices, v.toNat + 1 < 2 ^ 32) :
    offsetsFromBy ar next bs = .ok (Recording.offsetsFrom next bs) := by
  induction bs generalizing next with
  | nil => rfl
  | cons b bs ih =>
    rw [List.forall_mem_cons] at hword
    rw [offsetsFromBy, offsetsFrom_cons]
    cases hhighest : b.highest? with
    | none =>
      dsimp only
      rw [pure_bind, ih _ hword.2]
      rfl
    | some highest =>
      have hhighword := hword.1 highest (Batch.highest?_eq_some_iff.mp hhighest).1
      dsimp only
      rw [h.addWords (by simpa using hhighword), ok_bind, ih _ hword.2]
      rfl

theorem addMesh (vertices : Array Vertex) (pool : Array TexCoord)
    (made : Array Mesh × Array Entry) {p : PlacedBatch}
    (hword : ∀ v ∈ p.batch.vertices, v.toNat + 1 < 2 ^ 32) :
    addMeshBy ar vertices pool made p = .ok (Recording.addMesh vertices pool made p) := by
  unfold Recording.addMesh addMeshBy
  cases p.batch.lowest? with
  | none => rfl
  | some lowest =>
    dsimp only
    rw [h.ofBatch vertices pool _ hword]
    rfl

theorem assemble (vertices : Array Vertex) {r : Recording}
    (hword : ∀ b ∈ r.batches.toList, ∀ v ∈ b.vertices, v.toNat + 1 < 2 ^ 32) :
    r.assembleBy ar vertices = .ok (r.assemble vertices) := by
  have hplaced : ∀ p ∈ r.placed, ∀ v ∈ p.batch.vertices, v.toNat + 1 < 2 ^ 32 := by
    intro p hp
    apply hword
    rw [← batches_placed]
    exact List.mem_map_of_mem hp
  have hloop := foldlM_eq_ok
    (fun made p hp => h.addMesh vertices r.pool made (hplaced p hp)) (#[], #[])
  rw [assembleBy, h.offsetsFrom 0 hword, ok_bind, ← offsets, ← placed, hloop,
    assemble_eq_foldl]
  rfl

/-- A sound way to reckon comes from a roomy model to the scene that the plain one comes to. -/
theorem decode {m : Model} (hm : m.Roomy) (codec : Codec) (limit : Nat) :
    m.decodeBy ar codec limit = .ok (m.decode codec limit) := by
  have hassemble : ∀ r, (Decoder.run m codec limit (.start m)).result = .ok r →
      m.assembleBy ar r = .ok (Id.run (m.assembleBy .plain r)) := by
    intro r hrun
    obtain ⟨rfl, -⟩ := Decoder.run_eq_ok hrun
    have hword : ∀ b ∈ (Decoder.before m codec m.commands.size).recording.batches.toList,
        ∀ v ∈ b.vertices, v.toNat + 1 < 2 ^ 32 := by
      intro b hb v hv
      obtain ⟨-, hlt⟩ := Decoder.vertices_before m.commands.size b hb v hv
      omega
    rw [Model.assembleBy, Decoder.finish_recording, h.assemble m.vertices hword]
    rfl
  rw [Model.decodeBy, h.run hm, ok_bind, Model.decode, Model.decodeBy, Id.run_bind,
    ← Decoder.run, Logged.bindIn, Logged.bindIn]
  cases hrun : (Decoder.run m codec limit (.start m)).result with
  | error e => rfl
  | ok r =>
    dsimp only
    rw [hassemble r hrun]
    rfl

end Assembly

end Arithmetic.Sound

namespace Exact

/-- The scene of a model, with a look at all that is reckoned with on the way to it. -/
def decode (m : Model) (codec : Codec) (limit : Nat) : Except (Stop DecodeError) Decoded := do
  let out ← m.decodeBy arithmetic codec limit
  plain out.result

/-- The exact scene of a roomy model is the plain one. -/
theorem decode_eq {m : Model} (hm : m.Roomy) (codec : Codec) (limit : Nat) :
    decode m codec limit = plain (m.decode codec limit).result := by
  rw [decode, sound_arithmetic.decode hm]
  rfl

end Exact

/-! ### Everything together -/

/-- What a run reckons with stays within bounds: where the texels of each texture start and how many
bytes they take, in whatever format; where the palettes for it end; the epoch to come; and the
vertices in the window and in the faces. -/
structure Decoder.Bounded (d : Decoder) : Prop where
  texelOffset : ∀ t ∈ d.table.textures.toList, ∀ f : TexelFormat,
    t.dataOffset.toNat + f.paletteLength < 2 ^ 32
  texelLength : ∀ t ∈ d.table.textures.toList, ∀ f : TexelFormat,
    t.width.toNat * t.height.toNat * f.bitsPerTexel + 7 < 2 ^ 21
  paletteEnd : ∀ t ∈ d.table.textures.toList, ∀ operand,
    t.dataOffset.toNat + Command.paletteLength operand < 2 ^ 32
  epoch : d.state.epoch.toNat + 1 < 2 ^ 32
  window : ∀ s e, d.state.window.get? s = some e → e.vertex.toNat < 2 ^ 20 + 63
  faces : ∀ b ∈ d.recording.batches.toList, ∀ v ∈ b.vertices, v.toNat < 2 ^ 20 + 63

theorem Texture.Roomy.texelLength_lt {t : Texture} (h : t.Roomy) (f : TexelFormat) :
    t.width.toNat * t.height.toNat * f.bitsPerTexel + 7 < 2 ^ 21 := by
  have hbits : f.bitsPerTexel ≤ 32 := by cases f <;> decide
  have harea : t.width.toNat * t.height.toNat ≤ 255 * 255 :=
    Nat.mul_le_mul (Nat.le_of_lt_succ h.width) (Nat.le_of_lt_succ h.height)
  have hall := Nat.mul_le_mul harea hbits
  omega

theorem Decoder.bounded_before {m : Model} (hm : m.Roomy) (codec : Codec) {p : Nat}
    (hp : p ≤ m.commands.size) : (before m codec p).Bounded := by
  obtain ⟨htextures, hepoch⟩ := roomy_before hm codec hp
  refine ⟨fun t ht f => ?_, fun t ht f => (htextures t ht).texelLength_lt f,
    fun t ht operand => ?_, hepoch, fun s e hs => (vertex_lt_of_get? hs).2,
    fun b hb v hv => (vertices_before p b hb v hv).2⟩
  · have haddress := (htextures t ht).address
    have hpalette := f.paletteLength_le
    omega
  · have haddress := (htextures t ht).address
    have hpalette := Command.paletteLength_le operand
    omega

/-- The vertices that a load names are below `2 ^ 20 + 63`, so none is held at the greatest word. -/
theorem Command.nthFrom_vertexLoad_lt (c : Command) {n : Nat} (hn : n < c.vertexLoad.count) :
    (VertexWindow.nthFrom c.vertexLoad.base n).toNat = c.vertexLoad.base.toNat + n ∧
      c.vertexLoad.base.toNat + n < 2 ^ 20 + 63 := by
  have hbase := c.vertexLoad_base_lt
  have hcount := c.vertexLoad_count_lt
  rw [VertexWindow.toNat_nthFrom]
  omega

/-- Nothing wraps between a file and its scene. For a file that leaves 512 bytes to four gibibytes
and is read as a model, all sums, products and differences are exact: with a look at each of them
the same model is read, and every run of it comes to the same scene or the same failure. -/
theorem nothing_wraps (file : Bytes) (m : Model) (hlength : file.length < 2 ^ 32 - 512)
    (hload : (Model.load file).result = .ok m) :
    Exact.load file = .ok m ∧
    (∀ codec limit, Exact.decode m codec limit = Exact.plain (m.decode codec limit).result) ∧
    (∀ codec p, p ≤ m.commands.size → (Decoder.before m codec p).Bounded) ∧
    ∀ (c : Command) (n : Nat), n < c.vertexLoad.count →
      (VertexWindow.nthFrom c.vertexLoad.base n).toNat = c.vertexLoad.base.toNat + n ∧
      c.vertexLoad.base.toNat + n < 2 ^ 20 + 63 := by
  have hm := Model.roomy_of_load hlength hload
  refine ⟨by rw [Exact.load_eq, hload]; rfl, Exact.decode_eq hm,
    fun codec p => Decoder.bounded_before hm codec, fun c n hn => c.nthFrom_vertexLoad_lt hn⟩

/-- A texture that gets a tile and a palette, and a face. -/
def sampleDrawn : Container.Layout where
  vertices := .replicate 3 ⟨1, 2, 3, 0, 32, 32, 255, 255, 255, 255⟩
  textures := [⟨0, .rgba32, 8, rfl, 0, 1, 1, .replicate 6 0⟩]
  textureData := .replicate 8 255
  commands := [.ofFields 253 0 0 0 0, .ofFields 245 0x48 0 0 0, .ofFields 240 0 0 0 0,
    .ofFields 4 0 12 0 0, .ofFields 191 0 0 0 0x204]
  textureSetup := 0x6C
  displayListSetup := 0x8C
  vertexSetup := 0x24
  collisionSetup := 0xBC
  vertices_lt := by decide
  textures_lt := by decide
  textureData_lt := by decide
  commands_lt := by decide
  dataOffset_le := by decide
  displayListSetup_ne := by decide
  vertexSetup_ne := by decide
  of_textureSetup := by decide
  collisionSetup_le := by decide

theorem nothing_wraps_drawn :
    (Model.load (sampleDrawn.write (.replicate 0xBC 0))).result = .ok sampleDrawn.model ∧
    Exact.load (sampleDrawn.write (.replicate 0xBC 0)) = .ok sampleDrawn.model ∧
    (∀ codec limit, Exact.decode sampleDrawn.model codec limit =
      Exact.plain (sampleDrawn.model.decode codec limit).result) ∧
    (∀ codec p, p ≤ 5 → (Decoder.before sampleDrawn.model codec p).Bounded) ∧
    ∀ (c : Command) (n : Nat), n < c.vertexLoad.count →
      (VertexWindow.nthFrom c.vertexLoad.base n).toNat = c.vertexLoad.base.toNat + n ∧
      c.vertexLoad.base.toNat + n < 2 ^ 20 + 63 :=
  have hheld : sampleDrawn.HeldBy (sampleDrawn.write (.replicate 0xBC 0)) := by decide +kernel
  have hload := Container.Layout.load_of_heldBy hheld
  ⟨hload, nothing_wraps _ _ (by decide +kernel) hload⟩

end DisplayList

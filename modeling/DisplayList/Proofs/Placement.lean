import DisplayList.Proofs.Meshes
import DisplayList.Proofs.Reports
import Mathlib.Data.List.Induction

/-!
# Where meshes are placed

A mesh starts after the highest vertex of the last batch with faces before its own. While
batches work their way up through the store, the meshes cut it into consecutive pieces. A
batch that reaches back is reported, once, and its mesh starts at its own lowest vertex.
-/
namespace DisplayList

namespace Batch

/-- All vertices of one batch come before those of another. -/
def Below (a b : Batch) : Prop :=
  ∀ v ∈ a.vertices, ∀ w ∈ b.vertices, v < w

/-- The highest vertex of the last batch with faces. -/
def lastHighest? (bs : List Batch) : Option UInt32 :=
  (bs.filterMap highest?).getLast?

/-- The vertex due after some batches: the first of the store if none of them has faces. -/
def dueAfter (bs : List Batch) : UInt32 :=
  (lastHighest? bs).elim 0 (· + 1)

/-- Batches each of which lies above all those before it. -/
def Ascending (bs : List Batch) : Prop :=
  bs.Pairwise Below

/-- What is reported of a batch that comes after some others: that its lowest vertex is not above
the highest one of the last of them with faces. -/
def report? (earlier : List Batch) (b : Batch) : Option Diagnostic :=
  match b.lowest?, lastHighest? earlier with
  | some lowest, some highest =>
    if lowest ≤ highest then some (.nonMonotonicBatch earlier.length lowest (highest + 1))
    else none
  | _, _ => none

/-- What is reported of all batches, in order. -/
def reports (bs : List Batch) : List Diagnostic :=
  (List.range bs.length).filterMap fun k => bs[k]?.bind (report? (bs.take k))

variable {bs : List Batch} {b : Batch} {v lowest highest : UInt32}

@[simp] theorem lastHighest?_concat (bs : List Batch) (b : Batch) :
    lastHighest? (bs ++ [b]) = b.highest?.or (lastHighest? bs) := by
  cases h : b.highest? <;> simp [lastHighest?, h]

@[simp] theorem lastHighest?_cons (b : Batch) (bs : List Batch) :
    lastHighest? (b :: bs) = (lastHighest? bs).or b.highest? := by
  unfold lastHighest?
  cases h : b.highest? with
  | none => simp [h]
  | some highest =>
    rw [List.filterMap_cons_some h, List.getLast?_cons]
    cases (bs.filterMap Batch.highest?).getLast? <;> rfl

theorem exists_mem_of_lastHighest? (h : lastHighest? bs = some highest) :
    ∃ b ∈ bs, highest ∈ b.vertices := by
  obtain ⟨b, hb, hhigh⟩ := List.mem_filterMap.mp (List.mem_of_getLast? h)
  exact ⟨b, hb, (highest?_eq_some_iff.mp hhigh).1⟩

/-- Among ascending batches the last one with faces goes highest. -/
theorem Ascending.exists_lastHighest? (h : Ascending bs) (hb : b ∈ bs) (hv : v ∈ b.vertices) :
    ∃ highest, lastHighest? bs = some highest ∧ v ≤ highest := by
  induction bs using List.reverseRecOn with
  | nil => simp at hb
  | append_singleton bs last ih =>
    obtain ⟨hbs, -, hbelow⟩ := List.pairwise_append.mp h
    rw [List.mem_append, List.mem_singleton] at hb
    rw [lastHighest?_concat]
    cases hhigh : last.highest? with
    | none =>
      rcases hb with hb | rfl
      · exact ih hbs hb
      · have hnil : b.vertices = [] := highest?_eq_none_iff.mp hhigh
        simp [hnil] at hv
    | some highest =>
      obtain ⟨hmem, hle⟩ := highest?_eq_some_iff.mp hhigh
      refine ⟨highest, rfl, ?_⟩
      rcases hb with hb | rfl
      · exact UInt32.le_of_lt (hbelow b hb last (by simp) v hv highest hmem)
      · exact hle v hv

/-- One more batch keeps batches ascending if its lowest vertex is above the highest one of the
last of them with faces. -/
theorem ascending_concat_iff : Ascending (bs ++ [b]) ↔ Ascending bs ∧ report? bs b = none := by
  have hreport : report? bs b = none ↔ ∀ lowest highest, b.lowest? = some lowest →
      lastHighest? bs = some highest → highest < lowest := by
    unfold report?
    cases b.lowest? <;> cases lastHighest? bs <;> simp
  rw [Ascending, List.pairwise_append, hreport]
  constructor
  · intro h
    obtain ⟨hbs, -, hbelow⟩ := h
    refine ⟨hbs, fun lowest highest hlow hlast => ?_⟩
    obtain ⟨a, ha, hhigh⟩ := exists_mem_of_lastHighest? hlast
    exact hbelow a ha b (by simp) highest hhigh lowest (lowest?_eq_some_iff.mp hlow).1
  · intro h
    obtain ⟨hbs, habove⟩ := h
    refine ⟨hbs, List.pairwise_singleton .., fun a ha b' hb' v hv w hw => ?_⟩
    obtain rfl := List.mem_singleton.mp hb'
    obtain ⟨highest, hlast, hle⟩ := Ascending.exists_lastHighest? hbs ha hv
    obtain ⟨lowest, hlow⟩ := Option.ne_none_iff_exists'.mp fun hnone =>
      List.ne_nil_of_mem hw (lowest?_eq_none_iff.mp hnone)
    have hlt := habove lowest highest hlow hlast
    have hge := (lowest?_eq_some_iff.mp hlow).2 w hw
    exact UInt32.lt_of_le_of_lt hle (UInt32.lt_of_lt_of_le hlt hge)

theorem reports_concat (bs : List Batch) (b : Batch) :
    reports (bs ++ [b]) = reports bs ++ (report? bs b).toList := by
  have hearlier : (List.range bs.length).filterMap
      (fun k => (bs ++ [b])[k]?.bind (report? ((bs ++ [b]).take k))) = reports bs := by
    apply List.filterMap_congr
    intro k hk
    have hlt : k < bs.length := List.mem_range.mp hk
    rw [List.getElem?_append_left hlt, List.take_append_of_le_length (by omega)]
  rw [reports, List.length_append, List.length_singleton, List.range_succ, List.filterMap_append,
    hearlier]
  cases h : report? bs b <;> simp [h]

/-- Nothing is reported exactly if the batches are ascending. -/
theorem reports_eq_nil_iff : reports bs = [] ↔ Ascending bs := by
  induction bs using List.reverseRecOn with
  | nil => simp [reports, Ascending]
  | append_singleton bs b ih =>
    rw [reports_concat, ascending_concat_iff, List.append_eq_nil_iff, ih]
    simp

theorem kind_of_mem_reports {e : Diagnostic} (h : e ∈ reports bs) :
    e.kind = .nonMonotonicBatch := by
  obtain ⟨k, -, hk⟩ := List.mem_filterMap.mp h
  obtain ⟨b, -, hb⟩ := Option.bind_eq_some_iff.mp hk
  unfold report? at hb
  split at hb
  · split at hb
    · rw [← Option.some.inj hb]
      rfl
    · cases hb
  · cases hb

end Batch

/-! ### Batches in their places -/

namespace Recording

open Batch

variable {bs : List Batch} {b : Batch} {store : Array Vertex} {pool : Array TexCoord}

/-- Batches in their places, each where the ones before it leave off. -/
def place (bs : List Batch) : List PlacedBatch :=
  bs.mapIdx fun k b => ⟨k, b, dueAfter (bs.take k)⟩

theorem place_concat (bs : List Batch) (b : Batch) :
    place (bs ++ [b]) = place bs ++ [⟨bs.length, b, dueAfter bs⟩] := by
  have hearlier : bs.mapIdx (fun k b' => PlacedBatch.mk k b' (dueAfter ((bs ++ [b]).take k))) =
      place bs := by
    rw [place, List.mapIdx_eq_mapIdx_iff]
    intro k hk
    rw [List.take_append_of_le_length (by omega)]
  rw [place, List.mapIdx_concat, hearlier, List.take_left]

theorem offsetsFrom_concat (next : UInt32) (bs : List Batch) (b : Batch) :
    offsetsFrom next (bs ++ [b]) =
      offsetsFrom next bs ++ [(lastHighest? bs).elim next (· + 1)] := by
  induction bs generalizing next with
  | nil => rfl
  | cons a bs ih =>
    rw [List.cons_append, offsetsFrom_cons, ih, offsetsFrom_cons, lastHighest?_cons]
    cases lastHighest? bs <;> rfl

theorem placed_eq (r : Recording) : r.placed = place r.batches.toList := by
  unfold placed offsets withOffsets
  induction r.batches.toList using List.reverseRecOn with
  | nil => rfl
  | append_singleton bs b ih =>
    rw [offsetsFrom_concat, List.zip_append (by simp), List.zip_cons_cons, List.zip_nil_left,
      List.mapIdx_concat, ih, place_concat]
    simp [dueAfter]

/-- The place of the mesh of the `k`-th batch: how many batches before it have faces. -/
def meshPlace (bs : List Batch) (k : Nat) : Nat :=
  ((bs.take k).filter fun b => !b.isEmpty).length

theorem meshPlace_append {k : Nat} (hk : k ≤ bs.length) (more : List Batch) :
    meshPlace (bs ++ more) k = meshPlace bs k := by
  rw [meshPlace, List.take_append_of_le_length hk, meshPlace]

theorem length_meshes (store : Array Vertex) (pool : Array TexCoord) (bs : List Batch) :
    ((place bs).filterMap (PlacedBatch.mesh? store pool)).length = meshPlace bs bs.length := by
  induction bs using List.reverseRecOn with
  | nil => rfl
  | append_singleton bs b ih =>
    rw [place_concat, List.filterMap_append, List.length_append, ih, meshPlace, meshPlace,
      List.take_length, List.take_length]
    cases hb : b.isEmpty <;> simp [PlacedBatch.mesh?, hb]

/-- The mesh of a batch with faces, in its place among the meshes. -/
theorem getElem?_meshes {k : Nat} (hk : bs[k]? = some b) (hne : b.isEmpty = false) :
    ((place bs).filterMap (PlacedBatch.mesh? store pool))[meshPlace bs k]? =
      some (.ofBatch store pool (dueAfter (bs.take k)) b) := by
  induction bs using List.reverseRecOn with
  | nil => simp at hk
  | append_singleton bs last ih =>
    rw [place_concat, List.filterMap_append]
    rcases Decoder.getElem?_concat_cases hk with hk | ⟨rfl, rfl⟩
    · have hle := Nat.le_of_lt (List.getElem?_eq_some_iff.mp hk).1
      have hmesh := ih hk
      rw [meshPlace_append hle, List.take_append_of_le_length hle,
        List.getElem?_append_left (List.getElem?_eq_some_iff.mp hmesh).1, hmesh]
    · rw [meshPlace_append (Nat.le_refl _), ← length_meshes store pool,
        List.getElem?_append_right (Nat.le_refl _), Nat.sub_self, List.take_left]
      simp [PlacedBatch.mesh?, hne]

section Word

variable (hword : ∀ b ∈ bs, ∀ v ∈ b.vertices, v.toNat + 1 < 2 ^ 32)

include hword

/-- The vertex due is the one after the highest; no word is too small for it. -/
theorem toNat_dueAfter {highest : UInt32} (h : lastHighest? bs = some highest) :
    (dueAfter bs).toNat = highest.toNat + 1 := by
  obtain ⟨b, hb, hmem⟩ := exists_mem_of_lastHighest? h
  have hnowrap := hword b hb highest hmem
  rw [dueAfter, h, Option.elim_some, UInt32.toNat_add, UInt32.toNat_one]
  omega

/-- A batch is reported exactly if its lowest vertex comes before the one due. -/
theorem report?_eq {lowest : UInt32} (hlow : b.lowest? = some lowest) : report? bs b =
    if lowest < dueAfter bs then some (.nonMonotonicBatch bs.length lowest (dueAfter bs))
    else none := by
  unfold report?
  rw [hlow]
  cases hlast : lastHighest? bs with
  | none => simp [dueAfter, hlast]
  | some highest =>
    have hiff : lowest < dueAfter bs ↔ lowest ≤ highest := by
      rw [UInt32.lt_iff_toNat_lt, UInt32.le_iff_toNat_le, toNat_dueAfter hword hlast]
      omega
    simp only [hiff]
    rw [dueAfter, hlast, Option.elim_some]

/-- The mesh of a batch that reaches back starts at its lowest vertex, any other one where the
batches before it leave off. -/
theorem indexOffset_ofBatch {lowest : UInt32} (hlow : b.lowest? = some lowest) :
    (Mesh.ofBatch store pool (dueAfter bs) b).indexOffset =
      if (report? bs b).isSome then lowest else dueAfter bs := by
  obtain ⟨highest, hhigh⟩ := exists_highest_of_lowest? hlow
  rw [Mesh.ofBatch_eq_cut hlow hhigh, report?_eq hword hlow]
  show min (dueAfter bs) lowest = _
  rw [Std.min_eq_if]
  by_cases hlt : lowest < dueAfter bs
  · simp [hlt, UInt32.not_le.mpr hlt]
  · simp [hlt, UInt32.not_lt.mp hlt]

end Word

/-- The journal of the placement reports the batches that reach back. -/
theorem diagnostics_place (hword : ∀ b ∈ bs, ∀ v ∈ b.vertices, v.toNat + 1 < 2 ^ 32) :
    Journal.diagnostics ((place bs).filterMap PlacedBatch.entry?) = reports bs := by
  induction bs using List.reverseRecOn with
  | nil => rfl
  | append_singleton bs b ih =>
    have hearlier : ∀ a ∈ bs, ∀ v ∈ a.vertices, v.toNat + 1 < 2 ^ 32 :=
      fun a ha => hword a (List.mem_append_left _ ha)
    rw [place_concat, reports_concat, List.filterMap_append, Journal.diagnostics_append,
      ih hearlier, List.filterMap_cons, List.filterMap_nil]
    congr 1
    unfold PlacedBatch.entry?
    cases hlow : b.lowest? with
    | none => simp [report?, hlow]
    | some lowest =>
      rw [report?_eq hearlier hlow]
      by_cases hlt : lowest < dueAfter bs <;> simp [hlt]

/-- The meshes of ascending batches hold, one after the other, the store up to the highest vertex
used, whichever part of its vertices is looked at. -/
theorem flatMap_meshes {α : Type} {part : Mesh → List α} {view : Vertex → α}
    (hpart : ∀ b mesh, Mesh.Represents store b mesh → part mesh =
      ((store.toList.drop mesh.indexOffset.toNat).take mesh.positions.size).map view)
    (hstore : ∀ b ∈ bs, ∀ v ∈ b.vertices, v.toNat < store.size)
    (hword : ∀ b ∈ bs, ∀ v ∈ b.vertices, v.toNat + 1 < 2 ^ 32) (h : Ascending bs) :
    ((place bs).filterMap (PlacedBatch.mesh? store pool)).flatMap part =
      (store.toList.take (dueAfter bs).toNat).map view := by
  induction bs using List.reverseRecOn with
  | nil => rfl
  | append_singleton bs b ih =>
    obtain ⟨hbs, hreport⟩ := ascending_concat_iff.mp h
    have hearlier : ∀ a ∈ bs, ∀ v ∈ a.vertices, v.toNat + 1 < 2 ^ 32 :=
      fun a ha => hword a (List.mem_append_left _ ha)
    have hlast : b ∈ bs ++ [b] := by simp
    rw [place_concat, List.filterMap_append, List.flatMap_append,
      ih (fun a ha => hstore a (List.mem_append_left _ ha)) hearlier hbs]
    cases hb : b.isEmpty with
    | true =>
      simp [PlacedBatch.mesh?, hb, dueAfter, Batch.highest?, vertices_eq_nil_iff.mpr hb]
    | false =>
      have hmesh := Mesh.represents_ofBatch pool (dueAfter bs) hb (hstore b hlast) (hword b hlast)
      obtain ⟨lowest, hlow⟩ := exists_lowest hb
      have hoffset : (Mesh.ofBatch store pool (dueAfter bs) b).indexOffset = _ :=
        indexOffset_ofBatch hearlier hlow
      rw [hreport, Option.isSome_none, if_neg (by simp)] at hoffset
      obtain ⟨highest, hmem, hhigh, hend⟩ := hmesh.positions_size
      have hdue : (dueAfter (bs ++ [b])).toNat = highest.toNat + 1 := by
        apply toNat_dueAfter hword
        rw [lastHighest?_concat, highest?_eq_some_iff.mpr ⟨hmem, hhigh⟩, Option.some_or]
      have hone : [PlacedBatch.mk bs.length b (dueAfter bs)].filterMap
          (PlacedBatch.mesh? store pool) = [.ofBatch store pool (dueAfter bs) b] := by
        simp [PlacedBatch.mesh?, hb]
      -- the mesh starts where the pieces so far leave off, and ends before the vertex due next
      rw [hone, List.flatMap_singleton, hpart b _ hmesh, hdue, ← hend, hoffset,
        ← List.map_append, ← List.take_add]

end Recording

namespace Mesh

variable {store : Array Vertex} {b : Batch} {mesh : Mesh}

/-- What views the vertices of a mesh one by one views a piece of the store. -/
theorem toList_eq_slice {α : Type} {part : Array α} {view : Vertex → α}
    (hsize : part.size = mesh.positions.size)
    (hpart : ∀ l < mesh.positions.size, ∃ v, store[mesh.indexOffset.toNat + l]? = some v ∧
      part[l]? = some (view v)) :
    part.toList =
      ((store.toList.drop mesh.indexOffset.toNat).take mesh.positions.size).map view := by
  apply List.ext_getElem?
  intro l
  rw [Array.getElem?_toList, List.getElem?_map, List.getElem?_take]
  by_cases hl : l < mesh.positions.size
  · obtain ⟨v, hv, hview⟩ := hpart l hl
    rw [if_pos hl, List.getElem?_drop, Array.getElem?_toList, hv, hview, Option.map_some]
  · rw [if_neg hl, Array.getElem?_eq_none (by omega), Option.map_none]

theorem Represents.positions_eq_slice (h : mesh.Represents store b) : mesh.positions.toList =
    ((store.toList.drop mesh.indexOffset.toNat).take mesh.positions.size).map Vertex.position :=
  toList_eq_slice rfl fun l hl =>
    let ⟨v, hv, hposition, _⟩ := h.vertex l hl
    ⟨v, hv, hposition⟩

theorem Represents.colours_eq_slice (h : mesh.Represents store b) : mesh.colours.toList =
    ((store.toList.drop mesh.indexOffset.toNat).take mesh.positions.size).map Vertex.colour :=
  toList_eq_slice h.colours_size fun l hl =>
    let ⟨v, hv, _, hcolour⟩ := h.vertex l hl
    ⟨v, hv, hcolour⟩

end Mesh

namespace Model

open Batch Recording

/-- What becomes of the batches of a run when they are made into meshes. -/
structure PlacesMeshes (m : Model) (bs : List Batch) (run : List Diagnostic) (out : Decoded) :
    Prop where
  /-- The batches that reach back are reported in order, after everything that the run reports. -/
  diagnostics_eq : out.diagnostics = run ++ reports bs
  run_silent : ∀ e ∈ run, e.kind ≠ .nonMonotonicBatch
  silent_iff : (∀ e ∈ out.diagnostics, e.kind ≠ .nonMonotonicBatch) ↔ Ascending bs
  /-- Every batch with faces has its mesh, which starts at the lowest vertex of the batch if the
  batch is reported, and else where the batches before it leave off. -/
  mesh : ∀ k b lowest, bs[k]? = some b → b.lowest? = some lowest →
    ∃ mesh, out.scene.meshes[meshPlace bs k]? = some mesh ∧ mesh.Represents m.vertices b ∧
      mesh.indexOffset = if (report? (bs.take k) b).isSome then lowest else dueAfter (bs.take k)
  due : ∀ k highest, lastHighest? (bs.take k) = some highest →
    highest.toNat < m.vertices.size ∧ (dueAfter (bs.take k)).toNat = highest.toNat + 1
  positions : Ascending bs → out.scene.meshes.toList.flatMap (·.positions.toList) =
    (m.vertices.toList.take (dueAfter bs).toNat).map Vertex.position
  colours : Ascending bs → out.scene.meshes.toList.flatMap (·.colours.toList) =
    (m.vertices.toList.take (dueAfter bs).toNat).map Vertex.colour

/-- Batches over the store are made into meshes in their places. -/
theorem placesMeshes {m : Model} {r : Recording} {run : List Diagnostic} {out : Decoded}
    (hvertices : ∀ b ∈ r.batches.toList, ∀ v ∈ b.vertices,
      v.toNat < m.vertices.size ∧ v.toNat + 1 < 2 ^ 32)
    (hrun : ∀ e ∈ run, e.kind ≠ .nonMonotonicBatch)
    (hmeshes : out.scene.meshes = r.meshes m.vertices)
    (hdiagnostics : out.diagnostics = run ++ r.placementJournal.diagnostics) :
    m.PlacesMeshes r.batches.toList run out := by
  have hstore : ∀ b ∈ r.batches.toList, ∀ v ∈ b.vertices, v.toNat < m.vertices.size :=
    fun b hb v hv => (hvertices b hb v hv).1
  have hword : ∀ b ∈ r.batches.toList, ∀ v ∈ b.vertices, v.toNat + 1 < 2 ^ 32 :=
    fun b hb v hv => (hvertices b hb v hv).2
  have hlist : out.scene.meshes.toList =
      (place r.batches.toList).filterMap (PlacedBatch.mesh? m.vertices r.pool) := by
    rw [hmeshes, Recording.meshes, placed_eq]
  have hreports : out.diagnostics = run ++ reports r.batches.toList := by
    rw [hdiagnostics, placementJournal, placed_eq, diagnostics_place hword]
  have htake : ∀ k, ∀ b ∈ r.batches.toList.take k, ∀ v ∈ b.vertices, v.toNat + 1 < 2 ^ 32 :=
    fun k b hb => hword b (List.mem_of_mem_take hb)
  refine ⟨hreports, hrun, ?_, fun k b lowest hk hlow => ?_, fun k highest hlast => ?_,
    fun h => ?_, fun h => ?_⟩
  · rw [← reports_eq_nil_iff, hreports]
    constructor
    · intro h
      rw [List.eq_nil_iff_forall_not_mem]
      intro e he
      exact h e (List.mem_append_right _ he) (kind_of_mem_reports he)
    · intro h e he
      rw [h, List.append_nil] at he
      exact hrun e he
  · have hb := List.mem_of_getElem? hk
    have hne := isEmpty_of_lowest? hlow
    refine ⟨_, ?_, Mesh.represents_ofBatch r.pool _ hne (hstore b hb) (hword b hb),
      indexOffset_ofBatch (htake k) hlow⟩
    rw [← Array.getElem?_toList, hlist]
    exact getElem?_meshes hk hne
  · obtain ⟨b, hb, hmem⟩ := exists_mem_of_lastHighest? hlast
    exact ⟨hstore b (List.mem_of_mem_take hb) highest hmem, toNat_dueAfter (htake k) hlast⟩
  · rw [hlist]
    exact flatMap_meshes (fun _ _ => Mesh.Represents.positions_eq_slice) hstore hword h
  · rw [hlist]
    exact flatMap_meshes (fun _ _ => Mesh.Represents.colours_eq_slice) hstore hword h

/-- Whenever a model is decoded, its meshes are placed one after the other as far as the batches
ascend, and exactly the batches that reach back are reported. -/
theorem meshes_tile_store (m : Model) (codec : Codec) (limit : Nat) (out : Decoded)
    (h : (m.decode codec limit).result = .ok out) :
    ∃ r, (Decoder.run m codec limit (.start m)).result = .ok r ∧
      m.PlacesMeshes r.recording.batches.toList r.diagnostics out := by
  obtain ⟨r, hr, hscene, -, hdiagnostics⟩ := decode_eq_ok h
  obtain ⟨rfl, -⟩ := Decoder.run_eq_ok hr
  refine ⟨_, hr, placesMeshes (fun b hb v hv => ?_) (fun e he => ?_) (by rw [hscene]; rfl)
    hdiagnostics⟩
  · obtain ⟨hstore, hreach⟩ := Decoder.vertices_before m.commands.size b hb v hv
    exact ⟨hstore, by omega⟩
  · rw [Decoder.finish_diagnostics] at he
    exact Decoder.kind_ne_before m codec m.commands.size e he

/-- Three batches: an empty one, one over the end of the store and one that reaches back. -/
def sampleReturn : Model where
  vertices := .replicate 6 {}
  commands := #[.ofFields 4 0 12 0 0, .ofFields 182 0 0 0 0, .ofFields 4 0 12 0 48,
    .ofFields 191 0 0 0 0x204, .ofFields 182 0 0 0 0, .ofFields 4 0 12 0 16,
    .ofFields 191 0 0 0 0x204]

theorem meshes_tile_store_return :
    ∃ out, (sampleReturn.decode .packed 7).result = .ok out ∧
    ∃ r, (Decoder.run sampleReturn .packed 7 (.start sampleReturn)).result = .ok r ∧
      sampleReturn.PlacesMeshes r.recording.batches.toList r.diagnostics out :=
  ⟨_, rfl, meshes_tile_store sampleReturn .packed 7 _ rfl⟩

end Model

end DisplayList

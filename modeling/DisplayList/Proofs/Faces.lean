import DisplayList.Proofs.Reachability

/-!
# Faces and the commands that draw them

A recording only grows: faces and coordinates stay where they were put. So every face at the end
of a run was put there by one command, into the batch that was open then, and its coordinates
are those of its vertices, scaled by what was in force at that command.
-/
namespace DisplayList

namespace Recording

/-- The `j`-th face of the `k`-th batch. -/
def face? (r : Recording) (k j : Nat) : Option (Triangle Corner) :=
  r.batches.toList[k]?.bind fun b => b.triangles[j]?

variable {r s : Recording} {older : List Batch} {b : Batch} {k j : Nat} {f : Triangle Corner}

theorem face?_openBatch (r : Recording) (material : Nat) (epoch : UInt32) (k j : Nat) :
    (r.openBatch material epoch).face? k j = r.face? k j := by
  simp only [face?, toList_openBatch]
  rcases Nat.lt_trichotomy k r.batches.toList.length with hk | rfl | hk
  · rw [List.getElem?_append_left hk]
  · simp
  · have hsize := r.batches.length_toList
    rw [List.getElem?_eq_none (by simp; omega), List.getElem?_eq_none (by omega)]

/-- A face that is added is the next one of the open batch. -/
theorem face?_addTriangle (h : r.batches.toList = older ++ [b]) (vertices : Triangle UInt32)
    (uvs : Triangle TexCoord) (k j : Nat) : (r.addTriangle vertices uvs).face? k j =
      if k = older.length ∧ j = b.triangles.size then some (faceAt vertices r.pool.size)
      else r.face? k j := by
  simp only [face?, toList_addTriangle h, h]
  rcases Nat.lt_trichotomy k older.length with hk | rfl | hk
  · rw [List.getElem?_append_left hk, List.getElem?_append_left hk, if_neg (by omega)]
  · by_cases hj : j = b.triangles.size
    · simp [Batch.addFace, hj]
    · simp [Batch.addFace, hj, Array.getElem?_push]
  · rw [List.getElem?_eq_none (by simp; omega), List.getElem?_eq_none (by simp; omega),
      if_neg (by omega)]

/-- What is in one recording is in the same place in the other. -/
structure Grows (r s : Recording) : Prop where
  face : ∀ k j f, r.face? k j = some f → s.face? k j = some f
  coordinates : ∀ (n : Nat) uv, r.pool[n]? = some uv → s.pool[n]? = some uv

protected theorem Grows.refl (r : Recording) : r.Grows r :=
  ⟨fun _ _ _ h => h, fun _ _ h => h⟩

protected theorem Grows.trans {t : Recording} (h : r.Grows s) (h' : s.Grows t) : r.Grows t :=
  ⟨fun k j f hf => h'.face k j f (h.face k j f hf),
    fun n uv hn => h'.coordinates n uv (h.coordinates n uv hn)⟩

theorem grows_openBatch (r : Recording) (material : Nat) (epoch : UInt32) :
    r.Grows (r.openBatch material epoch) :=
  ⟨fun k j f hf => by rwa [face?_openBatch], fun _ _ h => h⟩

theorem pool_addTriangle_eq (h : r.batches.toList = older ++ [b]) (vertices : Triangle UInt32)
    (uvs : Triangle TexCoord) (n : Nat) : (r.addTriangle vertices uvs).pool[n]? =
      (r.pool.toList ++ uvs.toList)[n]? := by
  rw [← Array.getElem?_toList, pool_addTriangle h]

theorem grows_addTriangle (h : r.batches.toList = older ++ [b]) (vertices : Triangle UInt32)
    (uvs : Triangle TexCoord) : r.Grows (r.addTriangle vertices uvs) := by
  refine ⟨fun k j f hf => ?_, fun n uv hn => ?_⟩
  · have hnext : r.face? older.length b.triangles.size = none := by simp [face?, h]
    rw [face?_addTriangle h]
    split
    · rename_i heq
      rw [heq.1, heq.2, hnext] at hf
      cases hf
    · exact hf
  · rw [← Array.getElem?_toList] at hn
    rw [pool_addTriangle_eq h, List.getElem?_append_left (List.getElem?_eq_some_iff.mp hn).1, hn]

/-- The corners of a face are vertices of the store, and their coordinates in the pool are those of
the vertices, scaled. -/
def Scaled (m : Model) (ratio : TexCoord) (r : Recording) (f : Triangle Corner) : Prop :=
  ∀ corner ∈ f.toList, ∃ v, m.vertices[corner.vertex.toNat]? = some v ∧
    r.pool[corner.uv]? = some (v.uv.scaleBy ratio)

theorem Scaled.mono {m : Model} {ratio : TexCoord} (h : Scaled m ratio r f) (hgrows : r.Grows s) :
    Scaled m ratio s f := by
  intro corner hcorner
  obtain ⟨v, hv, huv⟩ := h corner hcorner
  exact ⟨v, hv, hgrows.coordinates _ _ huv⟩

theorem scaled_faceAt {m : Model} (ratio : TexCoord) (h : r.batches.toList = older ++ [b])
    {vertices : Triangle UInt32}
    (hstore : ∀ v ∈ vertices.toList, v.toNat < m.vertices.size) :
    Scaled m ratio (r.addTriangle vertices (vertices.map fun v =>
      (Model.vertexAt m.vertices v.toNat).uv.scaleBy ratio)) (faceAt vertices r.pool.size) := by
  obtain ⟨va, vb, vc⟩ := vertices
  simp only [Triangle.toList, List.mem_cons, List.not_mem_nil, or_false, forall_eq_or_imp,
    forall_eq] at hstore
  obtain ⟨ha, hb, hc⟩ := hstore
  simp only [Scaled, faceAt, Triangle.toList, List.mem_cons, List.not_mem_nil, or_false,
    forall_eq_or_imp, forall_eq, pool_addTriangle_eq h]
  refine ⟨⟨m.vertices[va.toNat], ?_⟩, ⟨m.vertices[vb.toNat], ?_⟩, ⟨m.vertices[vc.toNat], ?_⟩⟩
  · simp [Model.vertexAt, Triangle.map, ha]
  · simp [Model.vertexAt, Triangle.map, hb]
  · simp [Model.vertexAt, Triangle.map, hc]

end Recording

namespace Decoder

open Recording

variable {m : Model} {codec : Codec} {d d' : Decoder} {p q k j position : Nat} {c : Command}
  {f : Triangle Corner}

theorem Effect.grows (h : Effect m codec d position c d') : Grows d.recording d'.recording := by
  rcases h.window_cases with ⟨-, -, -, hr⟩ | ⟨-, rfl⟩ | ⟨-, epoch, he, rfl⟩
  · rw [hr]
    exact .refl _
  · rw [loadVertices_recording]
    cases d.state.boundary? with
    | none => exact .refl _
    | some boundary => exact grows_openBatch _ _ _
  · exact foldl_drawTriangle_induction (P := Grows d.recording) (by simp [he]) (.refl _)
      fun r older b slots vertices hb _ hr => hr.trans (grows_addTriangle hb _ _)

theorem grows_before (m : Model) (codec : Codec) (hpq : p ≤ q) :
    Grows (before m codec p).recording (before m codec q).recording :=
  before_mono (R := fun d d' => Grows d.recording d'.recording) (fun _ => .refl _)
    Grows.trans (fun d position c => (step_effect m codec d position c).grows) hpq

/-- The ratios of the texture bound last. -/
def boundRatio (d : Decoder) : TexCoord :=
  d.table.ratio d.state.texture

/-- A recording to which nothing but faces in the open batch has been added, all of them scaled by
the ratios of the texture that is bound. -/
structure DrawnOnto (m : Model) (d : Decoder) (r : Recording) : Prop where
  grows : Grows d.recording r
  size_eq : r.batches.size = d.recording.batches.size
  face : ∀ k j f, r.face? k j = some f → d.recording.face? k j = some f ∨
    (d.recording.face? k j = none ∧ k + 1 = d.recording.batches.size ∧
      Scaled m d.boundRatio r f)

theorem DrawnOnto.start (m : Model) (d : Decoder) : DrawnOnto m d d.recording :=
  ⟨.refl _, rfl, fun _ _ _ h => .inl h⟩

theorem DrawnOnto.addTriangle {r : Recording} {older : List Batch} {b : Batch}
    {vertices : Triangle UInt32} (h : DrawnOnto m d r) (hb : r.batches.toList = older ++ [b])
    (hstore : ∀ v ∈ vertices.toList, v.toNat < m.vertices.size) :
    DrawnOnto m d (r.addTriangle vertices (vertices.map fun v =>
      (Model.vertexAt m.vertices v.toNat).uv.scaleBy d.boundRatio)) := by
  have hgrows := grows_addTriangle hb vertices (vertices.map fun v =>
    (Model.vertexAt m.vertices v.toNat).uv.scaleBy d.boundRatio)
  have hlength : r.batches.size = older.length + 1 := by
    rw [← Array.length_toList, hb]
    simp
  refine ⟨h.grows.trans hgrows, ?_, fun k j f hf => ?_⟩
  · rw [← h.size_eq, hlength, ← Array.length_toList, toList_addTriangle hb]
    simp
  · rw [face?_addTriangle hb] at hf
    split at hf
    · rename_i hnext
      obtain ⟨rfl, rfl⟩ := hnext
      obtain rfl := Option.some.inj hf
      refine .inr ⟨?_, by rw [← h.size_eq, hlength], scaled_faceAt d.boundRatio hb hstore⟩
      have hnone : r.face? older.length b.triangles.size = none := by simp [face?, hb]
      rw [Option.eq_none_iff_forall_not_mem]
      intro f hf
      rw [h.grows.face _ _ f hf] at hnone
      cases hnone
    · rcases h.face k j f hf with hold | ⟨hnone, hk, hscaled⟩
      · exact .inl hold
      · exact .inr ⟨hnone, hk, hscaled.mono hgrows⟩

/-- A face that a command adds goes to the open batch, scaled by the ratios of the texture that
is bound. -/
theorem Effect.face_cases (h : Effect m codec d position c d')
    (hwindow : ∀ s e, d.state.window.get? s = some e → e.vertex.toNat < m.vertices.size)
    (hf : d'.recording.face? k j = some f) : d.recording.face? k j = some f ∨
      (c.faces ≠ [] ∧ d.recording.face? k j = none ∧ k + 1 = d.recording.batches.size ∧
        Scaled m d.boundRatio d'.recording f) := by
  rcases h.window_cases with ⟨-, -, -, hr⟩ | ⟨-, rfl⟩ | ⟨hc, epoch, he, rfl⟩
  · exact .inl (hr ▸ hf)
  · rw [loadVertices_recording] at hf
    cases hb : d.state.boundary? with
    | none => exact .inl (by rwa [hb] at hf)
    | some boundary =>
      rw [hb, Option.elim_some, face?_openBatch] at hf
      exact .inl hf
  · have hdrawn : DrawnOnto m d (c.faces.foldl (drawTriangle m position epoch) d).recording :=
      foldl_drawTriangle_induction (P := DrawnOnto m d) (by simp [he]) (.start m d)
        fun r older b slots vertices hb hres hr => hr.addTriangle hb fun v hv => by
          obtain ⟨s, hs⟩ := VertexWindow.exists_get?_of_resolveTriangle hres hv
          exact hwindow s _ hs
    rcases hdrawn.face k j f hf with hold | hnew
    · exact .inl hold
    · exact .inr ⟨hc, hnew⟩

/-- The `j`-th face of the `k`-th batch is drawn by the command at `p`: it was not there before,
and its coordinates are scaled by the ratios of the texture bound then. -/
structure Draws (m : Model) (codec : Codec) (p k j : Nat) (f : Triangle Corner) : Prop where
  command : ∃ c, m.commands[p]? = some c ∧ c.faces ≠ []
  size_eq : k + 1 = (before m codec p).recording.batches.size
  absent : (before m codec p).recording.face? k j = none
  drawn : (before m codec (p + 1)).recording.face? k j = some f
  scaled : Scaled m (before m codec p).boundRatio (before m codec (p + 1)).recording f

/-- Every face of a run was drawn by one of its commands. -/
theorem exists_draws (m : Model) (codec : Codec) (p : Nat)
    (hf : (before m codec p).recording.face? k j = some f) :
    ∃ q < p, Draws m codec q k j f := by
  induction p with
  | zero => simp [start, face?] at hf
  | succ p ih =>
    have hearlier (h : (before m codec p).recording.face? k j = some f) :
        ∃ q < p + 1, Draws m codec q k j f := by
      obtain ⟨q, hq, hdraws⟩ := ih h
      exact ⟨q, by omega, hdraws⟩
    cases hc : m.commands[p]? with
    | none => exact hearlier (by rwa [before_succ_of_none hc] at hf)
    | some c =>
      rcases (effect_before hc).face_cases (fun s e hs => (vertex_lt_of_get? hs).1) hf with
        hold | ⟨hfaces, hnone, hsize, hscaled⟩
      · exact hearlier hold
      · exact ⟨p, by omega, ⟨c, hc, hfaces⟩, hsize, hnone, hf, hscaled⟩

/-- A face is drawn into the batch that was opened last. -/
theorem Draws.openedAt {o : Nat} (h : Draws m codec p k j f) (ho : Opens m codec o)
    (hsize : (before m codec o).recording.batches.size = k) : OpenedAt m codec p o := by
  have hk := h.size_eq
  unfold Opens at ho
  refine ⟨?_, ho, fun r hr hrp hopens => ?_⟩
  · by_contra hle
    have hmono := size_batches_mono m codec (show p ≤ o by omega)
    omega
  · have hfirst := size_batches_mono m codec (show o + 1 ≤ r from hr)
    have hlast := size_batches_mono m codec (show r + 1 ≤ p from hrp)
    unfold Opens at hopens
    omega

end Decoder

end DisplayList

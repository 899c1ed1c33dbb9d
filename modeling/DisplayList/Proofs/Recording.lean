import DisplayList.Batch

/-!
# Faces in a recording

A face goes to the end of the open batch and its coordinates go to the end of the
pool; the batches before are as they were. The open batch is the last one of the
list, so a recording with an open batch is written `older ++ [b]`.
-/
namespace DisplayList

namespace Batch

/-- A batch with one more face. -/
def addFace (b : Batch) (face : Triangle Corner) : Batch :=
  { b with triangles := b.triangles.push face }

variable (b : Batch) (face : Triangle Corner)

@[simp] theorem addFace_material : (b.addFace face).material = b.material := rfl

@[simp] theorem addFace_epoch : (b.addFace face).epoch = b.epoch := rfl

@[simp] theorem corners_addFace : (b.addFace face).corners = b.corners ++ face.toList := by
  simp [addFace, corners]

@[simp] theorem vertices_addFace :
    (b.addFace face).vertices = b.vertices ++ face.toList.map Corner.vertex := by
  simp [vertices]

@[simp] theorem uvs_addFace : (b.addFace face).uvs = b.uvs ++ face.toList.map Corner.uv := by
  simp [uvs]

end Batch

namespace Recording

/-- A face whose coordinates start at a place in the pool. -/
def faceAt (vertices : Triangle UInt32) (n : Nat) : Triangle Corner :=
  ⟨⟨vertices.a, n⟩, ⟨vertices.b, n + 1⟩, ⟨vertices.c, n + 2⟩⟩

@[simp] theorem faceAt_vertices (vertices : Triangle UInt32) (n : Nat) :
    (faceAt vertices n).toList.map Corner.vertex = vertices.toList := rfl

@[simp] theorem faceAt_uvs (vertices : Triangle UInt32) (n : Nat) :
    (faceAt vertices n).toList.map Corner.uv = [n, n + 1, n + 2] := rfl

variable (r : Recording)

@[simp] theorem toList_openBatch (material : Nat) (epoch : UInt32) :
    (r.openBatch material epoch).batches.toList =
      r.batches.toList ++ [{ material := material, epoch := epoch }] := by
  simp [openBatch_eq]

@[simp] theorem pool_openBatch (material : Nat) (epoch : UInt32) :
    (r.openBatch material epoch).pool = r.pool := rfl

/-- A batch is open exactly if the list of batches has a last one. -/
theorem epoch?_eq_some_iff {epoch : UInt32} :
    r.epoch? = some epoch ↔ ∃ older b, r.batches.toList = older ++ [b] ∧ b.epoch = epoch := by
  simp only [epoch?, current?, ← Array.getLast?_toList, Option.map_eq_some_iff,
    List.getLast?_eq_some_iff]
  constructor
  · intro h
    obtain ⟨b, ⟨older, h⟩, he⟩ := h
    exact ⟨older, b, h, he⟩
  · intro h
    obtain ⟨older, b, h, he⟩ := h
    exact ⟨b, ⟨older, h⟩, he⟩

theorem epoch?_eq_none_iff : r.epoch? = none ↔ r.batches.toList = [] := by
  simp [epoch?, current?]

variable {r} {older : List Batch} {b : Batch}

/-- Changing the last member of a list leaves those before it alone. -/
theorem modify_length_append {α : Type} (f : α → α) (l : List α) (a : α) :
    (l ++ [a]).modify l.length f = l ++ [f a] := by
  have h := List.modifyTailIdx_add (List.modifyHead f) 0 l [a]
  simpa [List.modify] using h

theorem toList_addTriangle (h : r.batches.toList = older ++ [b])
    (vertices : Triangle UInt32) (uvs : Triangle TexCoord) :
    (r.addTriangle vertices uvs).batches.toList =
      older ++ [b.addFace (faceAt vertices r.pool.size)] := by
  obtain ⟨⟨batches⟩, pool⟩ := r
  simp only at h
  subst h
  simp [addTriangle_eq, modify_length_append, Batch.addFace, faceAt]

/-- Adding a face leaves the batch open. -/
theorem epoch?_addTriangle (h : r.batches.toList = older ++ [b]) (vertices : Triangle UInt32)
    (uvs : Triangle TexCoord) : (r.addTriangle vertices uvs).epoch? = some b.epoch :=
  (epoch?_eq_some_iff _).mpr ⟨older, _, toList_addTriangle h vertices uvs, rfl⟩

theorem pool_addTriangle (h : r.batches.toList = older ++ [b])
    (vertices : Triangle UInt32) (uvs : Triangle TexCoord) :
    (r.addTriangle vertices uvs).pool.toList = r.pool.toList ++ uvs.toList := by
  obtain ⟨⟨batches⟩, pool⟩ := r
  simp only at h
  subst h
  simp [addTriangle_eq, Triangle.toList]

end Recording

end DisplayList

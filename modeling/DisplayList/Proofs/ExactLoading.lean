import DisplayList.Proofs.CheckedReading
import DisplayList.Proofs.CommandRegion

/-!
# Reading without wrapping

Offsets and lengths are reckoned in sizes of 64 bits, and what is read from a file has 32 at most.
So a loader that looks at every sum and product before it goes on with it comes to what the plain
one comes to, on every file. What they read of a file of less than four gibibytes leaves room for
all that is reckoned with later.
-/
namespace DisplayList

namespace Exact

/-- The reading that looks at every sum and product. -/
def reading : Reading (Stop LoadError) where
  toArithmetic := arithmetic
  refuse := .failed
  byteAt part offset := .ok (part.byteAt offset)

/-- Reads the model in a file and looks at every sum and product on the way. -/
def load (file : Bytes) : Except (Stop LoadError) Model :=
  (reading.load file).result

theorem sound_reading : reading.Sound where
  toSound := sound_arithmetic
  byteAt _ _ _ := rfl

/-- On every file the exact loader comes to what the plain one does. -/
theorem load_eq (file : Bytes) : load file = plain (Model.load file).result :=
  sound_reading.load file

end Exact

/-! ### What is read leaves room -/

/-- Behind the address of a texture there is room for the longest palette, and its dimensions have
a byte each. -/
structure Texture.Roomy (t : Texture) : Prop where
  address : t.dataOffset.toNat + 512 < 2 ^ 32
  width : t.width.toNat < 256
  height : t.height.toNat < 256

/-- What is reckoned with in a run and when meshes are made fits if the model is like this. -/
structure Model.Roomy (m : Model) : Prop where
  textures : ∀ t ∈ m.textures.toList, t.Roomy
  vertices : m.vertices.size < 2 ^ 16
  commands : m.commands.size < 2 ^ 29

namespace Container

open Reading

theorem length_records (size count : Nat) (bytes : Bytes) :
    (records size count bytes).length = count := by
  induction count generalizing bytes with
  | zero => rfl
  | succ count ih => rw [records, List.length_cons, ih]

theorem bounds_of_texture {size index : Nat} {header : Bytes} {t : Texture}
    (h : plain.texture size index header = .ok t) :
    t.dataOffset.toNat ≤ size ∧ t.width.toNat < 256 ∧ t.height.toNat < 256 := by
  simp only [texture, plain_word32At, plain_word16At, plain_byteAt, ok_bind] at h
  split at h
  · obtain ⟨_, hoffset, hreturn⟩ := bind_eq_ok_iff.mp h
    obtain rfl := Except.ok.inj hreturn
    exact ⟨ensure_eq_ok_iff.mp hoffset, UInt8.toNat_lt _, UInt8.toNat_lt _⟩
  · cases h

theorem bounds_of_texturesFrom {size index : Nat} {headers : List Bytes} {ts : List Texture}
    (h : (plain.texturesFrom size index headers).result = .ok ts) :
    ∀ t ∈ ts, t.dataOffset.toNat ≤ size ∧ t.width.toNat < 256 ∧ t.height.toNat < 256 := by
  induction headers generalizing index ts with
  | nil =>
    obtain rfl := Except.ok.inj h
    simp
  | cons header headers ih =>
    simp only [texturesFrom, Logged.result_bind, Logged.result_liftM, Logged.result_note,
      Logged.result_pure, bind_eq_ok_iff] at h
    obtain ⟨t, ht, -, -, rest, hrest, hreturn⟩ := h
    obtain rfl := Except.ok.inj hreturn
    exact List.forall_mem_cons.mpr ⟨bounds_of_texture ht, ih hrest⟩

theorem roomy_of_readTextures {file data : Bytes} {setup : Nat} {textures : Array Texture}
    (hlength : file.length < 2 ^ 32 - 512)
    (h : (plain.readTextures file setup).result = .ok (textures, data)) :
    ∀ t ∈ textures.toList, t.Roomy := by
  unfold readTextures at h
  split at h
  · obtain ⟨rfl, -⟩ := Prod.mk.inj (Except.ok.inj h)
    simp
  simp only [readTextureSetup, Logged.result_bind, Logged.result_liftM, Logged.result_pure,
    plain_addSizes, plain_mulSizes, ok_bind, bind_eq_ok_iff, region_eq_ok_iff] at h
  obtain ⟨size, -, count, -, headers, -, data', ⟨hdata, -⟩, ts, hts, hreturn⟩ := h
  obtain ⟨rfl, -⟩ := Prod.mk.inj (Except.ok.inj hreturn)
  intro t ht
  obtain ⟨hoffset, hwidth, hheight⟩ := bounds_of_texturesFrom hts t ht
  exact ⟨by omega, hwidth, hheight⟩

theorem size_of_readVertices {file : Bytes} {setup : Nat} {vertices : Array Vertex}
    (h : plain.readVertices file setup = .ok vertices) : vertices.size < 2 ^ 16 := by
  simp only [readVertices, plain_addSizes, plain_mulSizes, ok_bind, bind_eq_ok_iff] at h
  obtain ⟨-, -, count, hcount, store, -, vs, hvs, hreturn⟩ := h
  obtain rfl := Except.ok.inj hreturn
  obtain rfl := Except.ok.inj (hvs.symm.trans (mapM_eq_ok fun _ _ => rfl))
  rw [List.size_toArray, List.length_map, length_records]
  exact lt_of_readWord16 hcount

end Container

/-- A model is roomy if it is read from a file that leaves 512 bytes to four gibibytes. -/
theorem Model.roomy_of_load {file : Bytes} {m : Model} (hlength : file.length < 2 ^ 32 - 512)
    (hload : (load file).result = .ok m) : m.Roomy := by
  obtain ⟨htextures, hcommands, hvertices⟩ := parts_of_load hload
  have hwithin := (Container.listedAt_of_read hcommands).within
  exact ⟨Container.roomy_of_readTextures hlength htextures,
    Container.size_of_readVertices hvertices, by omega⟩

end DisplayList

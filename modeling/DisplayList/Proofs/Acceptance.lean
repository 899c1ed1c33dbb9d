import DisplayList.Proofs.LayoutReading

/-!
# Which files are read

A file is read as a model exactly if its header is there and each of the blocks that the header
names lies within the file as far as its own counts say. Every step of the loader can only ask for
more, so what the whole asks for is put together from what each step asks for.
-/
namespace DisplayList

namespace Bytes

variable {bytes : Bytes} {start len n : Nat}

theorem slice?_eq_some_iff {part : Bytes} : bytes.slice? start len = some part ↔
    start + len ≤ bytes.length ∧ (bytes.drop start).take len = part := by
  simp [slice?_eq]

theorem byteAt_take_drop (h : n < len) :
    byteAt ((bytes.drop start).take len) n = bytes.byteAt (start + n) := by
  rw [byteAt, byteAt, List.getElem?_take_of_lt h, List.getElem?_drop]

/-- A part of a part. -/
theorem take_drop_take_drop {a b : Nat} (h : a + b ≤ len) :
    (((bytes.drop start).take len).drop a).take b = (bytes.drop (start + a)).take b := by
  rw [List.drop_take, List.take_take, List.drop_drop, Nat.min_eq_left (by omega)]

theorem word16At_take_drop (h : n + 1 < len) :
    word16At ((bytes.drop start).take len) n = bytes.word16At (start + n) := by
  rw [word16At, word16At, byteAt_take_drop (by omega), byteAt_take_drop h, Nat.add_assoc]

theorem word32At_take_drop (h : n + 3 < len) :
    word32At ((bytes.drop start).take len) n = bytes.word32At (start + n) := by
  simp only [word32At, byteAt_take_drop h, byteAt_take_drop (show n < len by omega),
    byteAt_take_drop (show n + 1 < len by omega), byteAt_take_drop (show n + 2 < len by omega),
    Nat.add_assoc]

end Bytes

namespace Container

open Bytes Reading

variable {file : Bytes} {r : Region} {offset length : Nat}

theorem region_eq_ok_iff {part : Bytes} : plain.region file r offset length = .ok part ↔
    offset + length ≤ file.length ∧ (file.drop offset).take length = part := by
  rw [← slice?_eq_some_iff, plain_region]
  cases file.slice? offset length <;> simp

/-! ### Success -/

/-- A reading gives something. -/
def Succeeds {α : Type} (x : Except LoadError α) : Prop :=
  ∃ a, x = .ok a

@[simp] theorem succeeds_ok {α : Type} (a : α) : Succeeds (.ok a) := ⟨a, rfl⟩

@[simp] theorem succeeds_pure {α : Type} (a : α) : Succeeds (pure a) := ⟨a, rfl⟩

@[simp] theorem not_succeeds_error {α : Type} (e : LoadError) :
    ¬ Succeeds (.error e : Except LoadError α) := by
  simp [Succeeds]

theorem bind_eq_ok_iff {α β : Type} {x : Except LoadError α} {f : α → Except LoadError β} {b : β} :
    x >>= f = .ok b ↔ ∃ a, x = .ok a ∧ f a = .ok b := by
  cases x with
  | error e => simp [bind, Except.bind]
  | ok a => simp [ok_bind]

theorem map_eq_ok_iff {α β : Type} {x : Except LoadError α} {f : α → β} {b : β} :
    x.map f = .ok b ↔ ∃ a, x = .ok a ∧ f a = b := by
  cases x <;> simp [Except.map]

theorem succeeds_bind_iff {α β : Type} {x : Except LoadError α} {f : α → Except LoadError β} :
    Succeeds (x >>= f) ↔ ∃ a, x = .ok a ∧ Succeeds (f a) := by
  cases x with
  | error e => simp [Succeeds, bind, Except.bind]
  | ok a => simp [ok_bind]

theorem ensure_eq_ok_iff {condition : Prop} [Decidable condition] {e : LoadError} {u : Unit} :
    plain.ensure condition e = .ok u ↔ condition := by
  unfold ensure
  split <;> simp [*]

theorem readWord16_eq_ok_iff {n : Nat} : plain.readWord16 file r offset = .ok n ↔
    offset + 2 ≤ file.length ∧ n = (file.word16At offset).toNat := by
  rw [plain_readWord16, map_eq_ok_iff]
  constructor
  · rintro ⟨part, hpart, rfl⟩
    obtain ⟨hlength, rfl⟩ := region_eq_ok_iff.mp hpart
    exact ⟨hlength, by rw [word16At_take_drop (by omega), Nat.add_zero]⟩
  · rintro ⟨hlength, rfl⟩
    refine ⟨_, region_eq_ok_iff.mpr ⟨hlength, rfl⟩, ?_⟩
    rw [word16At_take_drop (by omega), Nat.add_zero]

theorem readWord32_eq_ok_iff {n : Nat} : plain.readWord32 file r offset = .ok n ↔
    offset + 4 ≤ file.length ∧ n = (file.word32At offset).toNat := by
  rw [plain_readWord32, map_eq_ok_iff]
  constructor
  · rintro ⟨part, hpart, rfl⟩
    obtain ⟨hlength, rfl⟩ := region_eq_ok_iff.mp hpart
    exact ⟨hlength, by rw [word32At_take_drop (by omega), Nat.add_zero]⟩
  · rintro ⟨hlength, rfl⟩
    refine ⟨_, region_eq_ok_iff.mpr ⟨hlength, rfl⟩, ?_⟩
    rw [word32At_take_drop (by omega), Nat.add_zero]

theorem forall_mem_records {size count : Nat} {bytes : Bytes} {p : Bytes → Prop} :
    (∀ record ∈ records size count bytes, p record) ↔
      ∀ i < count, p ((bytes.drop (i * size)).take size) := by
  induction count generalizing bytes with
  | zero => simp [records]
  | succ count ih =>
    have hdrop (i : Nat) : (bytes.drop size).drop (i * size) = bytes.drop ((i + 1) * size) := by
      rw [List.drop_drop, Nat.succ_mul, Nat.add_comm]
    simp only [records, List.forall_mem_cons, ih, Nat.forall_lt_succ_left', hdrop, Nat.zero_mul,
      List.drop_zero]

/-- Records of a region are parts of the file. -/
theorem forall_mem_records_region {size start count : Nat} {p : Bytes → Prop} :
    (∀ record ∈ records size count ((file.drop start).take (count * size)), p record) ↔
      ∀ i < count, p ((file.drop (start + i * size)).take size) := by
  rw [forall_mem_records]
  refine forall₂_congr fun i hi => ?_
  rw [take_drop_take_drop]
  calc i * size + size = (i + 1) * size := (Nat.succ_mul i size).symm
    _ ≤ count * size := Nat.mul_le_mul_right size hi

/-! ### What is to be read -/

/-- The codes by which a texture header names its format. -/
def headerCodes : List Nat := [0x01, 0x02, 0x04, 0x08, 0x10]

theorem ofHeaderCode?_eq_none_iff {code : Nat} :
    TexelFormat.ofHeaderCode? code = none ↔ code ∉ headerCodes := by
  unfold TexelFormat.ofHeaderCode?
  split <;> simp_all [headerCodes]

/-- A texture setup lies within a file, with as many headers as it counts and as many bytes of
data as it declares, and each of its headers names a format and a place in the data. -/
structure HoldsTextures (file : Bytes) (setup : Nat) : Prop where
  within : setup + 8 + (file.word16At (setup + 4)).toNat * 16 + (file.word32At setup).toNat ≤
    file.length
  code_mem : ∀ i < (file.word16At (setup + 4)).toNat,
    (file.word16At (setup + 8 + i * 16 + 4)).toNat ∈ headerCodes
  offset_le : ∀ i < (file.word16At (setup + 4)).toNat,
    (file.word32At (setup + 8 + i * 16)).toNat ≤ (file.word32At setup).toNat

/-- A display list setup lies within a file, with as many commands as it counts, and ends
before a collision setup that comes after it. -/
structure HoldsCommands (file : Bytes) (setup collision : Nat) : Prop where
  within : setup + 8 + (file.word32At setup).toNat * 8 ≤ file.length
  ends_before : setup < collision → setup + 8 + (file.word32At setup).toNat * 8 ≤ collision

/-- A vertex store setup lies within a file, with as many vertices as it counts. -/
structure HoldsVertices (file : Bytes) (setup : Nat) : Prop where
  within : setup + 0x18 + (file.word16At (setup + 0x16)).toNat * 16 ≤ file.length

/-- What a file has to hold to be read as a model: the header, and the blocks that it names. -/
structure HoldsModel (file : Bytes) : Prop where
  header : 0x20 ≤ file.length
  magic : (file.word32At 0).toNat = 0x0000000B
  displayListSetup_ne : (file.word32At 0x0C).toNat ≠ 0
  vertexSetup_ne : (file.word32At 0x10).toNat ≠ 0
  textures : (file.word16At 0x08).toNat = 0 ∨ HoldsTextures file (file.word16At 0x08).toNat
  commands : HoldsCommands file (file.word32At 0x0C).toNat (file.word32At 0x1C).toNat
  vertices : HoldsVertices file (file.word32At 0x10).toNat

/-! ### What is read -/

theorem succeeds_texture_iff {size : Nat} (index : Nat) {header : Bytes} :
    Succeeds (plain.texture size index header) ↔
      (header.word16At 4).toNat ∈ headerCodes ∧ (header.word32At 0).toNat ≤ size := by
  unfold texture
  cases hcode : TexelFormat.ofHeaderCode? (header.word16At 4).toNat with
  | none =>
    have hmem := ofHeaderCode?_eq_none_iff.mp hcode
    simp [hcode, hmem, ok_bind, throw, throwThe, MonadExceptOf.throw]
  | some format =>
    have hmem : (header.word16At 4).toNat ∈ headerCodes := by
      by_contra hmem
      rw [ofHeaderCode?_eq_none_iff.mpr hmem] at hcode
      cases hcode
    simp only [plain_word32At, plain_word16At, plain_byteAt, ok_bind, hcode, succeeds_bind_iff,
      ensure_eq_ok_iff, succeeds_pure, hmem, true_and, and_true, exists_const]

theorem succeeds_texturesFrom_iff {size : Nat} (index : Nat) {headers : List Bytes} :
    Succeeds (plain.texturesFrom size index headers).result ↔ ∀ header ∈ headers,
      (header.word16At 4).toNat ∈ headerCodes ∧ (header.word32At 0).toNat ≤ size := by
  induction headers generalizing index with
  | nil => simp [texturesFrom]
  | cons header headers ih =>
    rw [List.forall_mem_cons, ← ih (index + 1), ← succeeds_texture_iff index]
    simp only [texturesFrom, Logged.result_bind, Logged.result_liftM, Logged.result_note,
      Logged.result_pure, succeeds_bind_iff]
    simp [Succeeds]

theorem succeeds_readTextureSetup_iff {setup : Nat} :
    Succeeds (plain.readTextureSetup file setup).result ↔ HoldsTextures file setup := by
  have hcode (start : Nat) : word16At ((file.drop start).take 16) 4 = file.word16At (start + 4) :=
    word16At_take_drop (by omega)
  have hoffset (start : Nat) : word32At ((file.drop start).take 16) 0 = file.word32At start :=
    word32At_take_drop (by omega)
  simp only [readTextureSetup, Logged.result_bind, Logged.result_liftM, Logged.result_pure,
    plain_addSizes, plain_mulSizes, ok_bind, succeeds_bind_iff, readWord32_eq_ok_iff,
    readWord16_eq_ok_iff, region_eq_ok_iff]
  constructor
  · rintro ⟨size, ⟨-, rfl⟩, count, ⟨-, rfl⟩, headers, ⟨-, rfl⟩, data, ⟨hdata, rfl⟩, ts, hts, -⟩
    have hall := (succeeds_texturesFrom_iff 0).mp ⟨ts, hts⟩
    simp only [forall_mem_records_region, hcode, hoffset] at hall
    exact ⟨hdata, fun i hi => (hall i hi).1, fun i hi => (hall i hi).2⟩
  · rintro ⟨hwithin, hmem, hle⟩
    obtain ⟨ts, hts⟩ : Succeeds (plain.texturesFrom (file.word32At setup).toNat 0 (records 16
        (file.word16At (setup + 4)).toNat ((file.drop (setup + 8)).take
          ((file.word16At (setup + 4)).toNat * 16)))).result := by
      simp only [succeeds_texturesFrom_iff, forall_mem_records_region, hcode, hoffset]
      exact fun i hi => ⟨hmem i hi, hle i hi⟩
    exact ⟨_, ⟨by omega, rfl⟩, _, ⟨by omega, rfl⟩, _, ⟨by omega, rfl⟩, _, ⟨hwithin, rfl⟩,
      ts, hts, succeeds_ok _⟩

theorem succeeds_readTextures_iff {setup : Nat} :
    Succeeds (plain.readTextures file setup).result ↔ setup = 0 ∨ HoldsTextures file setup := by
  unfold readTextures
  split
  · simp [*]
  · simp [succeeds_readTextureSetup_iff, *]

theorem succeeds_readCommands_iff {setup collision : Nat} :
    Succeeds (plain.readCommands file setup collision) ↔ HoldsCommands file setup collision := by
  simp only [readCommands, plain_addSizes, plain_mulSizes, plain_commands, ok_bind,
    succeeds_bind_iff, readWord32_eq_ok_iff, region_eq_ok_iff, ensure_eq_ok_iff]
  constructor
  · rintro ⟨count, ⟨-, rfl⟩, list, ⟨hlist, rfl⟩, -, hends, -⟩
    exact ⟨hlist, hends⟩
  · rintro ⟨hwithin, hends⟩
    exact ⟨_, ⟨by omega, rfl⟩, _, ⟨hwithin, rfl⟩, (), hends, succeeds_pure _⟩

theorem succeeds_readVertices_iff {setup : Nat} :
    Succeeds (plain.readVertices file setup) ↔ HoldsVertices file setup := by
  have hrecords (records : List Bytes) : ∃ vertices, records.mapM plain.vertex = .ok vertices :=
    ⟨_, mapM_eq_ok fun _ _ => rfl⟩
  simp only [readVertices, plain_addSizes, plain_mulSizes, ok_bind, succeeds_bind_iff,
    readWord16_eq_ok_iff, region_eq_ok_iff]
  constructor
  · rintro ⟨whole, -, count, ⟨-, rfl⟩, store, ⟨hstore, rfl⟩, -⟩
    exact ⟨hstore⟩
  · rintro ⟨hwithin⟩
    obtain ⟨vertices, hvertices⟩ := hrecords (records 16 (file.word16At (setup + 0x16)).toNat
      ((file.drop (setup + 0x18)).take ((file.word16At (setup + 0x16)).toNat * 16)))
    exact ⟨_, ⟨by omega, rfl⟩, _, ⟨by omega, rfl⟩, _, ⟨hwithin, rfl⟩, vertices, hvertices,
      succeeds_pure _⟩

theorem succeeds_load_iff : Succeeds (Model.load file).result ↔ HoldsModel file := by
  simp only [Model.load, load, Logged.result_bind, Logged.result_liftM, Logged.result_pure,
    Logged.result_note, succeeds_bind_iff, readWord32_eq_ok_iff, readWord16_eq_ok_iff,
    region_eq_ok_iff, ensure_eq_ok_iff]
  constructor
  · rintro ⟨_, ⟨-, rfl⟩, -, hfound, _, ⟨hheader, -⟩, _, ⟨-, rfl⟩, _, ⟨-, rfl⟩, _, ⟨-, rfl⟩,
      _, ⟨-, rfl⟩, -, hlist, -, hstore, ts, hts, cs, hcs, vs, hvs, -⟩
    exact {
      header := by simpa using hheader
      magic := hfound
      displayListSetup_ne := hlist
      vertexSetup_ne := hstore
      textures := succeeds_readTextures_iff.mp ⟨ts, hts⟩
      commands := succeeds_readCommands_iff.mp ⟨cs, hcs⟩
      vertices := succeeds_readVertices_iff.mp ⟨vs, hvs⟩ }
  · intro h
    have hheader := h.header
    obtain ⟨ts, hts⟩ := succeeds_readTextures_iff.mpr h.textures
    obtain ⟨cs, hcs⟩ := succeeds_readCommands_iff.mpr h.commands
    obtain ⟨vs, hvs⟩ := succeeds_readVertices_iff.mpr h.vertices
    exact ⟨_, ⟨by omega, rfl⟩, (), h.magic, _, ⟨by omega, rfl⟩, _, ⟨by omega, rfl⟩,
      _, ⟨by omega, rfl⟩, _, ⟨by omega, rfl⟩, _, ⟨by omega, rfl⟩, (),
      h.displayListSetup_ne, (), h.vertexSetup_ne, ts, hts, cs, hcs,
      vs, hvs, (), trivial, succeeds_ok _⟩

end Container

end DisplayList

import DisplayList.Proofs.Acceptance
import DisplayList.Proofs.Reckoning

/-!
# No byte is read that is not there

The loader finds a region to be within the file before it takes bytes out of it, and it reckons with
words of the file. So it makes no difference what a reading answers to a byte that is not there, or
to a size of more than 64 bits: neither comes up, in any file. A reading that fails at a byte that
is not there shows the one, and one that fails at such a size the other.
-/
namespace DisplayList

namespace Container

open Bytes

theorem length_of_region {file part : Bytes} {r : Region} {offset length : Nat}
    (h : Reading.plain.region file r offset length = .ok part) : part.length = length := by
  rw [Reading.plain_region] at h
  split at h
  · rename_i found
    obtain rfl := Except.ok.inj h
    exact length_of_slice? found
  · cases h

theorem length_of_mem_records {size count : Nat} {bytes : Bytes}
    (h : count * size ≤ bytes.length) : ∀ record ∈ records size count bytes,
      record.length = size := by
  rw [forall_mem_records]
  intro i hi
  have hend : (i + 1) * size ≤ count * size := Nat.mul_le_mul_right size hi
  rw [Nat.succ_mul] at hend
  rw [List.length_take, List.length_drop]
  omega

theorem lt_of_readWord16 {file : Bytes} {r : Region} {offset n : Nat}
    (h : Reading.plain.readWord16 file r offset = .ok n) : n < 2 ^ 16 := by
  rw [(readWord16_eq_ok_iff.mp h).2]
  exact UInt16.toNat_lt _

theorem lt_of_readWord32 {file : Bytes} {r : Region} {offset n : Nat}
    (h : Reading.plain.readWord32 file r offset = .ok n) : n < 2 ^ 32 := by
  rw [(readWord32_eq_ok_iff.mp h).2]
  exact UInt32.toNat_lt _

end Container

theorem Arithmetic.Sound.slice {ε : Type} {ar : Arithmetic (Except ε)} (h : ar.Sound)
    (bytes : Bytes) {start len : Nat} (hstop : start + len < 2 ^ 64) :
    bytes.sliceBy ar start len = .ok (bytes.slice? start len) := by
  rw [Bytes.sliceBy, h.addSizes hstop]
  rfl

namespace Reading

open Container

variable {ε : Type} {rd : Reading ε}

/-- A reading that differs from the plain one at most in what it says to a size of more than 64 bits
and to a byte that is not there. -/
structure Sound (rd : Reading ε) : Prop extends rd.toArithmetic.Sound where
  byteAt : ∀ part n, n < part.length → rd.byteAt part n = .ok (part.byteAt n)

/-- What the plain reading comes to, in the words of another one. -/
def lift {α : Type} (rd : Reading ε) (x : Except LoadError α) : Except ε α :=
  x.mapError rd.refuse

section Lift

variable {α β : Type}

/-- What follows a step only matters for what the step can give. -/
theorem lift_bind_congr {x : Except LoadError α} {f : α → Except ε β}
    {g : α → Except LoadError β} (h : ∀ a, x = .ok a → f a = rd.lift (g a)) :
    rd.lift x >>= f = rd.lift (x >>= g) := by
  cases x with
  | error e => rfl
  | ok a => exact h a rfl

theorem mapM_lift {f : α → Except ε β} {g : α → Except LoadError β} {xs : List α}
    (h : ∀ x ∈ xs, f x = rd.lift (g x)) : xs.mapM f = rd.lift (xs.mapM g) := by
  induction xs with
  | nil => rfl
  | cons x xs ih =>
    rw [List.forall_mem_cons] at h
    rw [List.mapM_cons, List.mapM_cons, h.1, ih h.2]
    exact lift_bind_congr fun _ _ => lift_bind_congr fun _ _ => rfl

end Lift

theorem ensure_eq (rd : Reading ε) (condition : Prop) [Decidable condition] (e : LoadError) :
    rd.ensure condition e = rd.lift (plain.ensure condition e) := by
  unfold ensure
  split <;> rfl

namespace Sound

variable (h : rd.Sound)

include h

/-! ### Records -/

section Records

variable {part : Bytes} {n : Nat}

theorem word16At (hn : n + 1 < part.length) : rd.word16At part n = .ok (part.word16At n) := by
  rw [Reading.word16At, h.byteAt _ _ (by omega), h.byteAt _ _ hn]
  rfl

theorem word32At (hn : n + 3 < part.length) : rd.word32At part n = .ok (part.word32At n) := by
  rw [Reading.word32At, h.byteAt _ _ (by omega), h.byteAt _ _ (by omega), h.byteAt _ _ (by omega),
    h.byteAt _ _ hn]
  rfl

theorem texture (hlength : part.length = 16) (size index : Nat) :
    rd.texture size index part = rd.lift (plain.texture size index part) := by
  unfold Reading.texture
  rw [h.word32At (by omega), h.word16At (by omega), h.byteAt _ _ (by omega),
    h.byteAt _ _ (by omega), plain_word32At, plain_word16At, plain_byteAt, plain_byteAt]
  simp only [ok_bind]
  cases TexelFormat.ofHeaderCode? (part.word16At 4).toNat with
  | none => rfl
  | some format =>
    rw [ensure_eq]
    exact lift_bind_congr fun _ _ => rfl

theorem command (hlength : part.length = 8) : rd.command part = rd.lift (plain.command part) := by
  have hbyte (n : Nat) (hn : n < 8) : rd.byteAt part n = .ok (part.byteAt n) :=
    h.byteAt part n (by omega)
  simp only [Reading.command, hbyte 0, hbyte 1, hbyte 2, hbyte 3, hbyte 4, hbyte 5, hbyte 6,
    hbyte 7, Nat.reduceLT]
  rfl

theorem vertex (hlength : part.length = 16) : rd.vertex part = rd.lift (plain.vertex part) := by
  have hword (n : Nat) (hn : n < 12) : rd.word16At part n = .ok (part.word16At n) :=
    h.word16At (by omega)
  have hbyte (n : Nat) (hn : n < 16) : rd.byteAt part n = .ok (part.byteAt n) :=
    h.byteAt part n (by omega)
  simp only [Reading.vertex, hword 0, hword 2, hword 4, hword 8, hword 10, hbyte 12, hbyte 13,
    hbyte 14, hbyte 15, Nat.reduceLT]
  rfl

end Records

/-! ### Regions -/

section Regions

variable (file : Bytes) (r : Region) {offset length setup : Nat} (collision : Nat)

theorem region (hstop : offset + length < 2 ^ 64) :
    rd.region file r offset length = rd.lift (plain.region file r offset length) := by
  rw [Reading.region, h.toSound.slice file hstop, ok_bind, plain_region]
  split <;> rfl

theorem readWord16 (hoffset : offset + 2 < 2 ^ 64) :
    rd.readWord16 file r offset = rd.lift (plain.readWord16 file r offset) := by
  rw [Reading.readWord16, h.region file r hoffset]
  refine lift_bind_congr fun part hpart => ?_
  have hlength := length_of_region hpart
  rw [h.word16At (by omega)]
  rfl

theorem readWord32 (hoffset : offset + 4 < 2 ^ 64) :
    rd.readWord32 file r offset = rd.lift (plain.readWord32 file r offset) := by
  rw [Reading.readWord32, h.region file r hoffset]
  refine lift_bind_congr fun part hpart => ?_
  have hlength := length_of_region hpart
  rw [h.word32At (by omega)]
  rfl

theorem texturesFrom {size : Nat} {headers : List Bytes}
    (hheaders : ∀ header ∈ headers, header.length = 16) (index : Nat) :
    (rd.texturesFrom size index headers).result =
      rd.lift (plain.texturesFrom size index headers).result := by
  induction headers generalizing index with
  | nil => rfl
  | cons header headers ih =>
    rw [List.forall_mem_cons] at hheaders
    simp only [Reading.texturesFrom, Logged.result_bind, Logged.result_liftM, Logged.result_note,
      Logged.result_pure, h.texture hheaders.1, ih hheaders.2]
    exact lift_bind_congr fun t _ => lift_bind_congr fun ts _ => rfl

theorem readTextures (hsetup : setup < 2 ^ 32) :
    (rd.readTextures file setup).result = rd.lift (plain.readTextures file setup).result := by
  unfold Reading.readTextures
  split
  · rfl
  simp only [readTextureSetup, Logged.result_bind, Logged.result_liftM, Logged.result_pure,
    plain_addSizes, plain_mulSizes, ok_bind]
  rw [h.readWord32 _ _ (by omega)]
  refine lift_bind_congr fun size hsize => ?_
  rw [h.addSizes (by omega), ok_bind, h.readWord16 _ _ (by omega)]
  refine lift_bind_congr fun count hcount => ?_
  have hsizeLt := lt_of_readWord32 hsize
  have hcountLt := lt_of_readWord16 hcount
  rw [h.addSizes (by omega), ok_bind, h.mulSizes (by omega), ok_bind,
    h.region _ _ (by omega)]
  refine lift_bind_congr fun headers hheaders => ?_
  rw [h.addSizes (by omega), ok_bind, h.region _ _ (by omega)]
  refine lift_bind_congr fun data _ => ?_
  rw [h.texturesFrom (length_of_mem_records (Nat.le_of_eq (length_of_region hheaders).symm))]
  exact lift_bind_congr fun textures _ => rfl

theorem commands (list : Bytes) : rd.commands list = rd.lift (plain.commands list) := by
  have hrecords := length_of_mem_records (Nat.div_mul_le_self list.length 8)
  exact mapM_lift fun record hrecord => h.command (hrecords record hrecord)

theorem readCommands (hsetup : setup < 2 ^ 32) :
    rd.readCommands file setup collision = rd.lift (plain.readCommands file setup collision) := by
  simp only [Reading.readCommands, plain_addSizes, plain_mulSizes, ok_bind]
  rw [h.readWord32 _ _ (by omega)]
  refine lift_bind_congr fun count hcount => ?_
  have hcountLt := lt_of_readWord32 hcount
  rw [h.addSizes (by omega), ok_bind, h.mulSizes (by omega), ok_bind,
    h.region _ _ (by omega)]
  refine lift_bind_congr fun list _ => ?_
  rw [h.addSizes (by omega), ok_bind, ensure_eq]
  refine lift_bind_congr fun _ _ => ?_
  rw [h.commands]
  exact lift_bind_congr fun cs _ => rfl

theorem readVertices (hsetup : setup < 2 ^ 32) :
    rd.readVertices file setup = rd.lift (plain.readVertices file setup) := by
  simp only [Reading.readVertices, plain_addSizes, plain_mulSizes, ok_bind]
  rw [h.region _ _ (by omega)]
  refine lift_bind_congr fun _ _ => ?_
  rw [h.addSizes (by omega), ok_bind, h.readWord16 _ _ (by omega)]
  refine lift_bind_congr fun count hcount => ?_
  have hcountLt := lt_of_readWord16 hcount
  rw [h.addSizes (by omega), ok_bind, h.mulSizes (by omega), ok_bind,
    h.region _ _ (by omega)]
  refine lift_bind_congr fun store hstore => ?_
  have hrecords := length_of_mem_records (Nat.le_of_eq (length_of_region hstore).symm)
  rw [mapM_lift fun record hrecord => h.vertex (hrecords record hrecord)]
  exact lift_bind_congr fun vs _ => rfl

/-- A sound reading comes to what the plain one comes to, on every file. -/
theorem load : (rd.load file).result = rd.lift (Model.load file).result := by
  simp only [Reading.load, Model.load, Logged.result_bind, Logged.result_liftM, Logged.result_pure,
    Logged.result_note]
  rw [h.readWord32 _ _ (by decide)]
  refine lift_bind_congr fun found _ => ?_
  rw [ensure_eq]
  refine lift_bind_congr fun _ _ => ?_
  rw [h.region _ _ (by decide)]
  refine lift_bind_congr fun _ _ => ?_
  rw [h.readWord16 _ _ (by decide)]
  refine lift_bind_congr fun textureSetup htexture => ?_
  rw [h.readWord32 _ _ (by decide)]
  refine lift_bind_congr fun displayListSetup hlist => ?_
  rw [h.readWord32 _ _ (by decide)]
  refine lift_bind_congr fun vertexSetup hvertex => ?_
  rw [h.readWord32 _ _ (by decide)]
  refine lift_bind_congr fun collisionSetup _ => ?_
  rw [ensure_eq]
  refine lift_bind_congr fun _ _ => ?_
  rw [ensure_eq]
  refine lift_bind_congr fun _ _ => ?_
  -- the setups were read as words, so there is room behind them
  rw [h.readTextures file (Nat.lt_trans (lt_of_readWord16 htexture) (by decide))]
  refine lift_bind_congr fun textures _ => ?_
  rw [h.readCommands file _ (lt_of_readWord32 hlist)]
  refine lift_bind_congr fun commands _ => ?_
  rw [h.readVertices file (lt_of_readWord32 hvertex)]
  exact lift_bind_congr fun vertices _ => rfl

end Regions

end Sound

end Reading

namespace Container

/-- Why a checked reading gives nothing: the bytes are no model, or a byte was asked for that is
not in the part that it is read from. -/
inductive ReadFault
  | refused (e : LoadError)
  | missing (offset : Nat)
  deriving DecidableEq, Repr

namespace Checked

/-- The reading that takes each byte only if it is there. -/
def reading : Reading ReadFault where
  toArithmetic := .plain
  refuse := .refused
  byteAt part offset :=
    match part[offset]? with
    | some b => .ok b
    | none => .error (.missing offset)

/-- Reads the model in a file, asking for each byte on its own. -/
def load (file : Bytes) : Except ReadFault Model :=
  (reading.load file).result

theorem sound_reading : reading.Sound where
  toSound := Arithmetic.sound_plain
  byteAt part n hn := by
    simp only [reading, Bytes.byteAt, List.getElem?_eq_getElem hn, Option.getD_some]

end Checked

/-- Exactly the files that hold a model are read as one, and no byte is asked for that is not in
the part of the file that it is taken from: with every byte checked, the loader comes to the same
model or the same refusal. -/
theorem load_iff_holdsModel (file : Bytes) :
    ((∃ m, (Model.load file).result = .ok m) ↔ HoldsModel file) ∧
    Checked.load file = (Model.load file).result.mapError .refused ∧
    ∀ offset, Checked.load file ≠ .error (.missing offset) := by
  have hload : Checked.load file = (Model.load file).result.mapError .refused :=
    Checked.sound_reading.load file
  refine ⟨succeeds_load_iff, hload, fun offset => ?_⟩
  rw [hload]
  cases (Model.load file).result <;> simp [Except.mapError]

end Container

end DisplayList

import DisplayList.Bytes
import Mathlib.Tactic.Ring

/-!
# Bits of bytes

Bytes are read here as one row of bits, each byte's most significant bit first. A field is a
number that some bits in a row spell; it may begin and end anywhere, also within a byte.
-/
namespace DisplayList

/-- The number that the `count` bits from `start` on spell, the most significant one first. -/
def spell (bits : Nat → Nat) (start : Nat) : Nat → Nat
  | 0 => 0
  | count + 1 => spell bits start count * 2 + bits (start + count)

theorem spell_congr {bits bits' : Nat → Nat} {start count : Nat}
    (h : ∀ n < start + count, bits n = bits' n) :
    spell bits start count = spell bits' start count := by
  induction count with
  | zero => rfl
  | succ count ih =>
    rw [spell, spell, ih fun n hn => h n (Nat.lt_succ_of_lt hn),
      h (start + count) (Nat.lt_succ_self _)]

namespace Bytes

/-- A bit of the row; zero beyond the end. -/
def bitAt (bytes : Bytes) (n : Nat) : Nat :=
  (bytes.byteAt (n / 8)).toNat / 2 ^ (7 - n % 8) % 2

/-- The number in the `count` bits from `start` on. -/
def field (bytes : Bytes) (start count : Nat) : Nat :=
  spell bytes.bitAt start count

/-- The `length` bytes that have these bits. -/
def ofBits (bits : Nat → Nat) (length : Nat) : Bytes :=
  (List.range length).map fun k => .ofNat (spell bits (8 * k) 8)

variable (bytes : Bytes) (start count k : Nat)

theorem field_succ : bytes.field start (count + 1) =
    bytes.field start count * 2 + bytes.bitAt (start + count) :=
  rfl

@[simp] theorem field_one : bytes.field start 1 = bytes.bitAt start := by
  simp [field, spell]

theorem field_lt : bytes.field start count < 2 ^ count := by
  induction count with
  | zero => simp [field, spell]
  | succ count ih =>
    have hbit : bytes.bitAt (start + count) < 2 := Nat.mod_lt _ (by decide)
    rw [field_succ, Nat.pow_succ]
    omega

/-- The bits of a longer field are those of two shorter ones. -/
theorem field_add (rest : Nat) : bytes.field start (count + rest) =
    bytes.field start count * 2 ^ rest + bytes.field (start + count) rest := by
  induction rest with
  | zero => simp [field, spell]
  | succ rest ih =>
    rw [← Nat.add_assoc, field_succ, ih, field_succ, Nat.pow_succ, Nat.add_assoc start]
    ring

/-- A field within a field, with `rest` bits behind it. -/
theorem field_within (first rest : Nat) : bytes.field (start + first) count =
    bytes.field start (first + count + rest) / 2 ^ rest % 2 ^ count := by
  have hfield := field_lt bytes (start + first) count
  have hrest := field_lt bytes (start + (first + count)) rest
  rw [field_add, Nat.add_comm (_ * 2 ^ rest), Nat.add_mul_div_right _ _ (Nat.two_pow_pos rest),
    Nat.div_eq_of_lt hrest, Nat.zero_add, field_add, Nat.mul_add_mod', Nat.mod_eq_of_lt hfield]

/-- A bit of a field. -/
theorem field_bit (rest : Nat) : bytes.field start (k + 1 + rest) / 2 ^ rest % 2 =
    bytes.bitAt (start + k) := by
  have hwithin := bytes.field_within start 1 k rest
  rw [field_one] at hwithin
  exact hwithin.symm

theorem bitAt_drop (n : Nat) : bitAt (bytes.drop k) n = bytes.bitAt (8 * k + n) := by
  have hbyte : (8 * k + n) / 8 = k + n / 8 := by omega
  have hbit : (8 * k + n) % 8 = n % 8 := by omega
  rw [bitAt, bitAt, hbyte, hbit, byteAt, byteAt, List.getElem?_drop]

theorem field_drop : field (bytes.drop k) start count = bytes.field (8 * k + start) count := by
  induction count with
  | zero => rfl
  | succ count ih => rw [field_succ, field_succ, ih, bitAt_drop, Nat.add_assoc]

theorem bitAt_take {n : Nat} (h : n < 8 * k) : bitAt (bytes.take k) n = bytes.bitAt n := by
  rw [bitAt, bitAt, byteAt, byteAt, List.getElem?_take_of_lt (by omega)]

theorem bitAt_append_left (rest : Bytes) {n : Nat} (h : n < 8 * bytes.length) :
    bitAt (bytes ++ rest) n = bytes.bitAt n := by
  rw [← bitAt_take _ _ h, List.take_left]

theorem bitAt_append_right (rest : Bytes) (n : Nat) :
    bitAt (bytes ++ rest) (8 * bytes.length + n) = rest.bitAt n := by
  rw [← bitAt_drop, List.drop_left]

theorem bitAt_singleton {n : Nat} (h : n < 8) :
    bitAt [bytes.byteAt k] n = bytes.bitAt (8 * k + n) := by
  have hbyte : (8 * k + n) / 8 = k := by omega
  have hbit : (8 * k + n) % 8 = n % 8 := by omega
  have hfirst : n / 8 = 0 := by omega
  rw [bitAt, bitAt, hbyte, hbit, hfirst]
  rfl

theorem field_take (h : start + count ≤ 8 * k) :
    field (bytes.take k) start count = bytes.field start count :=
  spell_congr fun _ hn => bitAt_take bytes k (Nat.lt_of_lt_of_le hn h)

/-! ### Whole bytes and halves of them -/

/-- The topmost bits of a byte. -/
theorem field_of_le (h : count ≤ 8) :
    bytes.field (8 * k) count = (bytes.byteAt k).toNat / 2 ^ (8 - count) := by
  induction count with
  | zero => exact (Nat.div_eq_of_lt (bytes.byteAt k).toNat_lt).symm
  | succ count ih =>
    have hbyte : (8 * k + count) / 8 = k := by omega
    have hbit : (8 * k + count) % 8 = count := by omega
    have hshift : 8 - count = 7 - count + 1 := by omega
    rw [field_succ, ih (Nat.le_of_succ_le h), bitAt, hbyte, hbit, hshift, Nat.pow_succ,
      ← Nat.div_div_eq_div_mul, Nat.div_add_mod', Nat.succ_sub_succ]

theorem field_byte : bytes.field (8 * k) 8 = (bytes.byteAt k).toNat :=
  (bytes.field_of_le 8 k (Nat.le_refl 8)).trans (Nat.div_one _)

/-- Bytes are given by their bits. -/
theorem ofBits_eq {bits : Nat → Nat} {bytes : Bytes}
    (h : ∀ n < 8 * bytes.length, bits n = bytes.bitAt n) : ofBits bits bytes.length = bytes := by
  refine List.ext_getElem (by simp [ofBits]) fun k hk hin => ?_
  have hspell : spell bits (8 * k) 8 = bytes.field (8 * k) 8 :=
    spell_congr fun n hn => h n (by omega)
  simp [ofBits, hspell, field_byte, byteAt, hin]

theorem field_word16 : bytes.field (8 * k) 16 = (bytes.word16At k).toNat := by
  have hsecond : bytes.field (8 * k + 8) 8 = _ := bytes.field_byte (k + 1)
  rw [word16At, word16_toNat, field_add _ _ 8 8, field_byte, hsecond]
  omega

theorem field_word32 : bytes.field (8 * k) 32 = (bytes.word32At k).toNat := by
  have hsecond : bytes.field (8 * k + 8) 8 = _ := bytes.field_byte (k + 1)
  have hthird : bytes.field (8 * k + 16) 8 = _ := bytes.field_byte (k + 2)
  have hfourth : bytes.field (8 * k + 24) 8 = _ := bytes.field_byte (k + 3)
  rw [word32At, word32_toNat, field_add _ _ 24 8, field_add _ _ 16 8, field_add _ _ 8 8,
    field_byte, hsecond, hthird, hfourth]
  omega

theorem field_upperHalf : bytes.field (8 * k) 4 = (bytes.byteAt k).toNat / 16 :=
  bytes.field_of_le 4 k (by decide)

theorem field_lowerHalf : bytes.field (8 * k + 4) 4 = (bytes.byteAt k).toNat % 16 := by
  rw [field_within _ _ _ 4 0, field_byte]
  omega

end Bytes

end DisplayList

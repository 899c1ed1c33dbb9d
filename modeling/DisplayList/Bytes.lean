import DisplayList.Arithmetic

/-!
# Byte strings with big-endian fields

Everything read from a model file is a range of its bytes. A word is put together
from bytes with the most significant one first, a field is a run of bits of a
word, and a range exists only where all of its bytes do.
-/
namespace DisplayList

/-- The bytes of files and of texture data. -/
abbrev Bytes := List UInt8

namespace Bytes

/-- The 16-bit word of two bytes, the more significant one first. -/
def word16 (a b : UInt8) : UInt16 :=
  UInt16.ofNat (a.toNat * 256 + b.toNat)

/-- The 32-bit word of four bytes, the most significant one first. -/
def word32 (a b c d : UInt8) : UInt32 :=
  UInt32.ofNat (((a.toNat * 256 + b.toNat) * 256 + c.toNat) * 256 + d.toNat)

/-- The signed reading of a 16-bit word in two's complement. -/
def signed16 (w : UInt16) : Int :=
  if w.toNat < 32768 then w.toNat else (w.toNat : Int) - 65536

/-- The four bytes of a 32-bit word, the most significant one first. -/
def ofWord32 (w : UInt32) : Bytes :=
  [UInt8.ofNat (w.toNat / 16777216), UInt8.ofNat (w.toNat / 65536),
    UInt8.ofNat (w.toNat / 256), UInt8.ofNat w.toNat]

/-- The two bytes of a 16-bit word, the more significant one first. -/
def ofWord16 (w : UInt16) : Bytes :=
  [UInt8.ofNat (w.toNat / 256), UInt8.ofNat w.toNat]

theorem word16_toNat (a b : UInt8) : (word16 a b).toNat = a.toNat * 256 + b.toNat := by
  have := a.toNat_lt
  have := b.toNat_lt
  simp only [word16, UInt16.toNat_ofNat']
  omega

theorem word32_toNat (a b c d : UInt8) : (word32 a b c d).toNat =
    ((a.toNat * 256 + b.toNat) * 256 + c.toNat) * 256 + d.toNat := by
  have := a.toNat_lt
  have := b.toNat_lt
  have := c.toNat_lt
  have := d.toNat_lt
  simp only [word32, UInt32.toNat_ofNat']
  omega

/-- The byte at an offset, zero beyond the end. -/
def byteAt (bytes : Bytes) (offset : Nat) : UInt8 :=
  bytes[offset]?.getD 0

/-- The 16-bit word at an offset. -/
def word16At (bytes : Bytes) (offset : Nat) : UInt16 :=
  word16 (bytes.byteAt offset) (bytes.byteAt (offset + 1))

/-- The 32-bit word at an offset. -/
def word32At (bytes : Bytes) (offset : Nat) : UInt32 :=
  word32 (bytes.byteAt offset) (bytes.byteAt (offset + 1)) (bytes.byteAt (offset + 2))
    (bytes.byteAt (offset + 3))

/-- The bytes of a text in UTF-8. -/
def ofText (text : String) : Bytes :=
  text.toUTF8.data.toList

/-- The `len` bytes from `start`, if all of them are there. -/
def sliceBy {M : Type → Type} [Monad M] (ar : Arithmetic M) (bytes : Bytes) (start len : Nat) :
    M (Option Bytes) := do
  let stop ← ar.addSizes start len
  return if stop ≤ bytes.length then some ((bytes.drop start).take len) else none

def slice? (bytes : Bytes) (start len : Nat) : Option Bytes :=
  Id.run (bytes.sliceBy .plain start len)

theorem slice?_eq (bytes : Bytes) (start len : Nat) : bytes.slice? start len =
    if start + len ≤ bytes.length then some ((bytes.drop start).take len) else none := rfl

theorem slice?_isSome (bytes : Bytes) (start len : Nat) :
    (bytes.slice? start len).isSome ↔ start + len ≤ bytes.length := by
  simp [slice?_eq]

theorem length_of_slice? {bytes part : Bytes} {start len : Nat}
    (h : bytes.slice? start len = some part) : part.length = len := by
  rw [slice?_eq] at h
  split at h
  · cases h
    simp only [List.length_take, List.length_drop]
    omega
  · cases h

end Bytes

/-- The number held by the `count` bits of `n` from bit `low` up. -/
def bitField (n low count : Nat) : Nat :=
  (n >>> low) % (1 <<< count)

theorem bitField_lt (n low count : Nat) : bitField n low count < 1 <<< count :=
  Nat.mod_lt _ (Nat.one_shiftLeft count ▸ Nat.two_pow_pos count)

end DisplayList

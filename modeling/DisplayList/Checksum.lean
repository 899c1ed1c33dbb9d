import DisplayList.Bytes

/-!
# Checksums

The two checksums of image files: the 32-bit cyclic redundancy check that guards a
chunk, and the pair of sums that guards the compressed data.
-/
namespace DisplayList.Checksum

/-- The polynomial of the cyclic redundancy check, lowest power first. -/
def polynomial : UInt32 := 0xEDB88320

/-- Divides the remainder once more. -/
def shift (r : UInt32) : UInt32 :=
  if r % 2 = 1 then (r >>> 1) ^^^ polynomial else r >>> 1

/-- What a byte at the low end of the remainder comes to after eight divisions. -/
def tableEntry (n : Nat) : UInt32 :=
  Nat.repeat shift 8 (UInt32.ofNat n)

/-- What each byte comes to. -/
def table : Array UInt32 :=
  (Array.range 256).map tableEntry

/-- The remainder with one more byte taken in. -/
def crcStep (r : UInt32) (b : UInt8) : UInt32 :=
  table[((r ^^^ b.toUInt32) % 256).toNat]?.getD 0 ^^^ (r >>> 8)

/-- The cyclic redundancy check, which starts from and ends in a complement. -/
def crc32 (bytes : Bytes) : UInt32 :=
  bytes.foldl crcStep 0xFFFFFFFF ^^^ 0xFFFFFFFF

/-- The greatest prime number of 16 bits. -/
def adlerModulus : Nat := 65521

/-- Both sums with one more byte taken in. -/
def adlerStep (sums : Nat × Nat) (b : UInt8) : Nat × Nat :=
  let low := (sums.1 + b.toNat) % adlerModulus
  (low, (sums.2 + low) % adlerModulus)

/-- The sum of the bytes and the sum of those sums, in one word. -/
def adler32 (bytes : Bytes) : UInt32 :=
  let sums := bytes.foldl adlerStep (1, 0)
  UInt32.ofNat (sums.2 * 65536 + sums.1)

end DisplayList.Checksum

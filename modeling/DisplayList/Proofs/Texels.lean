import DisplayList.Proofs.BitFields
import DisplayList.Texture.Codec
import Mathlib.Algebra.Order.Floor.Div

/-!
# What texels show

A texel is a number of a few bits. In most formats its bits are channels, each of which is brought
to the range of a byte; in the indexed formats it is the place of a colour in a palette. This is
said here of the bits of a texture's bytes, and the numbers that are unpacked, with the colours
that are given to them, are proved to be the same.
-/
namespace DisplayList

/-! ### The formats -/

/-- A channel of a texel: `count` of its bits, from bit `first` on. -/
structure Channel where
  first : Nat
  count : Nat

namespace Channel

/-- The number in a channel of `count` bits, brought to the range from 0 to 255: five bits are
followed by the topmost three of them, other numbers are scaled. -/
def widen (count n : Nat) : Nat :=
  if count = 5 then n * 8 + n / 4 else n * 255 / (2 ^ count - 1)

@[simp] theorem widen_one (n : Nat) : widen 1 n = n * 255 := by
  simp [widen]

theorem widen_three (n : Nat) : widen 3 n = n * 255 / 7 := rfl

@[simp] theorem widen_four (n : Nat) : widen 4 n = n * 17 := by
  have hscale : n * 255 / 15 = n * 17 := by omega
  simpa [widen] using hscale

theorem widen_five (n : Nat) : widen 5 n = n * 8 + n / 4 := rfl

@[simp] theorem widen_eight (n : Nat) : widen 8 n = n := by
  simp [widen]

/-- What a channel of the texel at bit `start` shows. -/
def value (c : Channel) (bytes : Bytes) (start : Nat) : UInt8 :=
  .ofNat (widen c.count (bytes.field (start + c.first) c.count))

theorem value_eq (first count rest : Nat) (bytes : Bytes) (start : Nat) :
    value ⟨first, count⟩ bytes start = .ofNat (widen count
      (bytes.field start (first + count + rest) / 2 ^ rest % 2 ^ count)) := by
  rw [value, Bytes.field_within]

/-- A channel that is a byte shows this byte. -/
theorem value_byte (k : Nat) (bytes : Bytes) (n : Nat) :
    value ⟨8 * k, 8⟩ bytes (8 * n) = bytes.byteAt (n + k) := by
  rw [value, ← Nat.mul_add, Bytes.field_byte, widen_eight, UInt8.ofNat_toNat]

end Channel

/-- The channels of a texel that is no index. -/
structure Channels where
  red : Channel
  green : Channel
  blue : Channel
  alpha : Channel

namespace Channels

/-- One channel for all three colours. -/
def grey (intensity alpha : Channel) : Channels :=
  ⟨intensity, intensity, intensity, alpha⟩

/-- Five bits each of red, green and blue, and one bit of cover. -/
def rgba16 : Channels := ⟨⟨0, 5⟩, ⟨5, 5⟩, ⟨10, 5⟩, ⟨15, 1⟩⟩

/-- The pixel of the texel at bit `start`. -/
def pixel (c : Channels) (bytes : Bytes) (start : Nat) : Pixel :=
  ⟨c.red.value bytes start, c.green.value bytes start, c.blue.value bytes start,
    c.alpha.value bytes start⟩

end Channels

/-- The channels of a format's texels; those of an indexed format have none. -/
def TexelFormat.channels? : TexelFormat → Option Channels
  | .rgba16 => some .rgba16
  | .rgba32 => some ⟨⟨0, 8⟩, ⟨8, 8⟩, ⟨16, 8⟩, ⟨24, 8⟩⟩
  | .ci4 | .ci8 => none
  | .ia4 => some (.grey ⟨0, 3⟩ ⟨3, 1⟩)
  | .ia8 => some (.grey ⟨0, 4⟩ ⟨4, 4⟩)
  | .ia16 => some (.grey ⟨0, 8⟩ ⟨8, 8⟩)
  | .i4 => some (.grey ⟨0, 4⟩ ⟨0, 4⟩)
  | .i8 => some (.grey ⟨0, 8⟩ ⟨0, 8⟩)

/-- The formats that have channels are those without an embedded palette. -/
theorem TexelFormat.exists_channels_iff {format : TexelFormat} :
    (∃ c, format.channels? = some c) ↔ format.paletteLength = 0 := by
  cases format <;> simp [channels?, paletteLength]

theorem bitField_eq (n low count : Nat) : bitField n low count = n / 2 ^ low % 2 ^ count := by
  rw [bitField, Nat.shiftRight_eq_div_pow, Nat.one_shiftLeft]

theorem Pixel.coverage_eq (n : Nat) : coverage n = .ofNat (n % 2 * 255) := by
  rcases Nat.mod_two_eq_zero_or_one n with h | h <;> simp [coverage, h]

theorem Pixel.of5551_eq (bytes : Bytes) (start : Nat) :
    of5551 (bytes.field start 16) = Channels.rgba16.pixel bytes start := by
  simp [of5551, expandFive, coverage_eq, bitField_eq, Channels.pixel, Channels.rgba16,
    Channel.value_eq 0 5 11, Channel.value_eq 5 5 6, Channel.value_eq 10 5 1,
    Channel.value_eq 15 1 0, Channel.widen_five]

/-- A texel that is no index has the colour that its channels show. -/
theorem Texels.colour_eq_pixel {format : TexelFormat} {c : Channels}
    (h : format.channels? = some c) (palette : Array Pixel) (bytes : Bytes) (start : Nat) :
    colour format palette (bytes.field start format.bitsPerTexel) = c.pixel bytes start := by
  cases format with
  | rgba16 =>
    obtain rfl := Option.some.inj h
    exact Pixel.of5551_eq bytes start
  | rgba32 =>
    obtain rfl := Option.some.inj h
    simp [colour, TexelFormat.bitsPerTexel, bitField_eq, Channels.pixel, Channel.value_eq 0 8 24,
      Channel.value_eq 8 8 16, Channel.value_eq 16 8 8, Channel.value_eq 24 8 0]
  | ci4 => cases h
  | ci8 => cases h
  | ia4 =>
    obtain rfl := Option.some.inj h
    have hlt := bytes.field_lt start 4
    have hhigh : bytes.field start 4 / 2 % 8 = bytes.field start 4 / 2 := by omega
    simp [colour, TexelFormat.bitsPerTexel, Channels.pixel, Channels.grey, Pixel.grey,
      Pixel.coverage_eq, Channel.value_eq 0 3 1, Channel.value_eq 3 1 0, Channel.widen_three, hhigh]
  | ia8 =>
    obtain rfl := Option.some.inj h
    have hlt := bytes.field_lt start 8
    have hhigh : bytes.field start 8 / 16 % 16 = bytes.field start 8 / 16 := by omega
    simp [colour, TexelFormat.bitsPerTexel, Channels.pixel, Channels.grey, Pixel.grey,
      Channel.value_eq 0 4 4, Channel.value_eq 4 4 0, hhigh]
  | ia16 =>
    obtain rfl := Option.some.inj h
    have hlt := bytes.field_lt start 16
    have hhigh : bytes.field start 16 / 256 % 256 = bytes.field start 16 / 256 := by omega
    simp [colour, TexelFormat.bitsPerTexel, Channels.pixel, Channels.grey, Pixel.grey,
      Channel.value_eq 0 8 8, Channel.value_eq 8 8 0, hhigh]
  | i4 =>
    obtain rfl := Option.some.inj h
    simp [colour, TexelFormat.bitsPerTexel, Channels.pixel, Channels.grey, Pixel.grey,
      Channel.value]
  | i8 =>
    obtain rfl := Option.some.inj h
    simp [colour, TexelFormat.bitsPerTexel, Channels.pixel, Channels.grey, Pixel.grey,
      Channel.value]

/-! ### Unpacking -/

namespace Texels

/-- The number of `width` bits at a place, if all of its bits are there. -/
def numberAt? (bytes : Bytes) (width i : Nat) : Option Nat :=
  if (i + 1) * width ≤ 8 * bytes.length then some (bytes.field (i * width) width) else none

/-- Numbers behind some that fill whole bytes. -/
theorem numberAt?_append (width count : Nat) (head rest : Bytes) (i : Nat)
    (h : count * width = 8 * head.length) :
    numberAt? (head ++ rest) width (i + count) = numberAt? rest width i := by
  have hfield : rest.field (i * width) width =
      Bytes.field (head ++ rest) (8 * head.length + i * width) width := by
    rw [← Bytes.field_drop, List.drop_left]
  have hstart : (i + count) * width = 8 * head.length + i * width := by
    rw [Nat.add_mul, h]
    omega
  have hstop : (i + count + 1) * width = 8 * head.length + (i + 1) * width := by
    rw [Nat.succ_mul, hstart, Nat.succ_mul i]
    omega
  rw [numberAt?, numberAt?, hstart, hstop, hfield, List.length_append]
  congr 1
  rw [eq_iff_iff]
  omega

theorem getElem?_halfBytes (bytes : Bytes) (i : Nat) :
    (halfBytes bytes)[i]? = numberAt? bytes 4 i := by
  induction bytes generalizing i with
  | nil => simp [halfBytes, numberAt?]
  | cons b rest ih =>
    match i with
    | 0 =>
      have hfield : Bytes.field (b :: rest) 0 4 = b.toNat / 16 := Bytes.field_upperHalf _ 0
      have hlength : 4 ≤ 8 * (rest.length + 1) := by omega
      simp [halfBytes, numberAt?, hfield, hlength]
    | 1 =>
      have hfield : Bytes.field (b :: rest) 4 4 = b.toNat % 16 := Bytes.field_lowerHalf _ 0
      have hlength : 8 ≤ 8 * (rest.length + 1) := by omega
      simp [halfBytes, numberAt?, hfield]
    | i + 2 => exact (ih i).trans (numberAt?_append 4 2 [b] rest i rfl).symm

theorem getElem?_bytes (bytes : Bytes) (i : Nat) :
    (bytes.map UInt8.toNat)[i]? = numberAt? bytes 8 i := by
  rw [numberAt?, Nat.mul_comm i, Bytes.field_byte, List.getElem?_map, Bytes.byteAt]
  split_ifs with h
  · have hlt : i < bytes.length := by omega
    rw [List.getElem?_eq_getElem hlt]
    rfl
  · rw [List.getElem?_eq_none (by omega)]
    rfl

theorem getElem?_words16 (bytes : Bytes) (i : Nat) :
    (words16 bytes)[i]? = numberAt? bytes 16 i := by
  induction bytes using words16.induct generalizing i with
  | case1 a b rest ih =>
    cases i with
    | zero =>
      have hfield : Bytes.field (a :: b :: rest) 0 16 = (Bytes.word16 a b).toNat :=
        Bytes.field_word16 _ 0
      have hlength : 16 ≤ 8 * (rest.length + 2) := by omega
      simp [words16, numberAt?, hfield, hlength]
    | succ i => exact (ih i).trans (numberAt?_append 16 1 [a, b] rest i rfl).symm
  | case2 bytes hshort =>
    match bytes, hshort with
    | [], _ => simp [words16, numberAt?]
    | [_], _ =>
      have hlength : ¬ (i + 1) * 16 ≤ 8 := by omega
      simp [words16, numberAt?, hlength]
    | a :: b :: rest, hshort => exact (hshort a b rest rfl).elim

theorem getElem?_words32 (bytes : Bytes) (i : Nat) :
    (words32 bytes)[i]? = numberAt? bytes 32 i := by
  induction bytes using words32.induct generalizing i with
  | case1 a b c d rest ih =>
    cases i with
    | zero =>
      have hfield : Bytes.field (a :: b :: c :: d :: rest) 0 32 = (Bytes.word32 a b c d).toNat :=
        Bytes.field_word32 _ 0
      have hlength : 32 ≤ 8 * (rest.length + 4) := by omega
      simp [words32, numberAt?, hfield, hlength]
    | succ i => exact (ih i).trans (numberAt?_append 32 1 [a, b, c, d] rest i rfl).symm
  | case2 bytes hshort =>
    have hlength (n : Nat) (hn : n < 32) : ¬ (i + 1) * 32 ≤ n := by omega
    match bytes, hshort with
    | [], _ | [_], _ | [_, _], _ | [_, _, _], _ => simp [words32, numberAt?, hlength]
    | a :: b :: c :: d :: rest, hshort => exact (hshort a b c d rest rfl).elim

/-- The numbers of texels are those that their bits spell, in order. -/
theorem getElem?_unpack (format : TexelFormat) (bytes : Bytes) (i : Nat) :
    (unpack format bytes)[i]? = numberAt? bytes format.bitsPerTexel i := by
  cases format with
  | ci4 | ia4 | i4 => exact getElem?_halfBytes bytes i
  | ci8 | ia8 | i8 => exact getElem?_bytes bytes i
  | rgba16 | ia16 => exact getElem?_words16 bytes i
  | rgba32 => exact getElem?_words32 bytes i

end Texels

/-! ### Palettes -/

/-- The colour at a place of a palette; beyond the palette nothing is shown. -/
def paletteEntry (palette : Bytes) (n : Nat) : Pixel :=
  if 2 * n + 2 ≤ palette.length then Channels.rgba16.pixel palette (16 * n) else .transparent

theorem Texels.getD_paletteColours (palette : Bytes) (n : Nat) :
    (paletteColours palette)[n]?.getD .transparent = paletteEntry palette n := by
  rw [paletteColours, List.getElem?_toArray, List.getElem?_map, getElem?_words16, numberAt?,
    paletteEntry, Nat.mul_comm 16]
  by_cases h : 2 * n + 2 ≤ palette.length
  · rw [if_pos h, if_pos (by omega)]
    exact Pixel.of5551_eq palette (n * 16)
  · rw [if_neg h, if_neg (by omega)]
    rfl

/-! ### The pixels of a texture -/

namespace Texture

variable (t : Texture) (raw : Bytes)

/-- How many texels there are. -/
def texelCount : Nat :=
  t.width.toNat * t.height.toNat

/-- The bytes that have to be there: an embedded palette, and all texels. -/
def needed : Nat :=
  t.format.paletteLength + (t.texelCount * t.format.bitsPerTexel) ⌈/⌉ 8

/-- The bytes from the first texel on. -/
def texels : Bytes :=
  raw.drop t.format.paletteLength

/-- The number in a texel. -/
def number (n : Nat) : Nat :=
  (t.texels raw).field (n * t.format.bitsPerTexel) t.format.bitsPerTexel

/-- The palette that was loaded, else the embedded one. -/
def paletteBytes : Bytes :=
  t.palette.getD (raw.take t.format.paletteLength)

/-- What a texel shows: its channels, or the colour that it is the index of. -/
def pixelAt (n : Nat) : Pixel :=
  match t.format.channels? with
  | some c => c.pixel (t.texels raw) (n * t.format.bitsPerTexel)
  | none => paletteEntry (t.paletteBytes raw) (t.number raw n)

theorem needed_eq : t.needed = t.format.paletteLength + t.texelLength := by
  rw [needed, Nat.ceilDiv_eq_add_pred_div]
  rfl

theorem colour_number (n : Nat) : Texels.colour t.format
    (Texels.paletteColours (t.paletteBytes raw)) (t.number raw n) = t.pixelAt raw n := by
  rw [pixelAt]
  cases hformat : t.format.channels? with
  | some c => exact Texels.colour_eq_pixel hformat _ _ _
  | none =>
    rw [← Texels.getD_paletteColours]
    cases hkind : t.format <;> simp_all [TexelFormat.channels?, Texels.colour]

/-- Every texel of a texture is among the bytes that have to be there. -/
theorem texel_le {n : Nat} (h : n < t.texelCount) :
    n * t.format.bitsPerTexel + t.format.bitsPerTexel ≤ 8 * t.texelLength := by
  have hle : (n + 1) * t.format.bitsPerTexel ≤ t.texelCount * t.format.bitsPerTexel :=
    Nat.mul_le_mul_right _ h
  rw [Nat.succ_mul] at hle
  rw [texelLength]
  rw [texelCount] at hle
  omega

/-- The number in a texel is among the bytes that have to be there. -/
theorem number_of_needed {n : Nat} (h : n < t.texelCount) :
    Bytes.field ((raw.take t.needed).drop t.format.paletteLength) (n * t.format.bitsPerTexel)
      t.format.bitsPerTexel = t.number raw n := by
  rw [needed_eq, List.drop_take, Nat.add_sub_cancel_left, Bytes.field_take _ _ _ _ (t.texel_le h)]
  rfl

theorem texel_le_needed {n : Nat} (h : n < t.texelCount) (hlong : t.needed ≤ raw.length) :
    n * t.format.bitsPerTexel + t.format.bitsPerTexel ≤
      8 * ((raw.take t.needed).drop t.format.paletteLength).length := by
  have htexel := t.texel_le h
  rw [needed_eq] at hlong ⊢
  rw [List.length_drop, List.length_take]
  omega

theorem take_unpack (h : t.needed ≤ raw.length) :
    (Texels.unpack t.format ((raw.take t.needed).drop t.format.paletteLength)).take t.texelCount =
      (List.range t.texelCount).map (t.number raw) := by
  apply List.ext_getElem?
  intro n
  rw [List.getElem?_take, List.getElem?_map]
  split_ifs with hn
  · rw [Texels.getElem?_unpack, Texels.numberAt?, Nat.succ_mul, if_pos (t.texel_le_needed raw hn h),
      number_of_needed _ _ hn, List.getElem?_range hn]
    rfl
  · rw [List.getElem?_eq_none (by simpa using hn)]
    rfl

end Texture

end DisplayList

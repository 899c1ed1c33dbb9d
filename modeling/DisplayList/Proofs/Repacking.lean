import DisplayList.Proofs.Unpacking
import Mathlib.Tactic.IntervalCases

/-!
# Recovering texels from pixels

The topmost bits of what a channel shows are the channel's own bits. So the bits of a texel that is
no index can be read off its pixel, and the bytes of a texture's texels can be put together from its
image. What an image does not tell is the lower half of a byte in which the last texel ends.
-/
namespace DisplayList

/-! ### Texels -/

namespace Channel

/-- How many bits the channels of the packed formats have. -/
def widths : List Nat := [1, 3, 4, 5, 8]

/-- Whether a bit of a texel belongs to a channel. -/
def Has (c : Channel) (i : Nat) : Prop :=
  c.first ≤ i ∧ i < c.first + c.count

instance (c : Channel) (i : Nat) : Decidable (c.Has i) :=
  inferInstanceAs (Decidable (_ ∧ _))

theorem widen_spec {count n : Nat} (hcount : count ∈ widths) (hn : n < 2 ^ count) :
    widen count n < 256 ∧ widen count n / 2 ^ (8 - count) = n := by
  simp only [widths, List.mem_cons, List.not_mem_nil, or_false] at hcount
  rcases hcount with rfl | rfl | rfl | rfl | rfl <;> simp [widen_three, widen_five] at hn ⊢ <;>
    omega

/-- The topmost bits of what a channel shows are its own. -/
theorem bitAt_value {c : Channel} (hwidth : c.count ∈ widths) (bytes : Bytes) (start : Nat)
    {i : Nat} (hi : i < c.count) :
    Bytes.bitAt [c.value bytes start] i = bytes.bitAt (start + c.first + i) := by
  obtain ⟨hlt, hdiv⟩ := widen_spec hwidth (bytes.field_lt (start + c.first) c.count)
  have hle : c.count ≤ 8 := (by decide : ∀ count ∈ widths, count ≤ 8) _ hwidth
  have hcount : i + 1 + (c.count - 1 - i) = c.count := by omega
  have hsplit : 7 - i % 8 = 8 - c.count + (c.count - 1 - i) := by omega
  have hfirst : i / 8 = 0 := by omega
  have hbit := bytes.field_bit (start + c.first) i (c.count - 1 - i)
  rw [hcount] at hbit
  -- A bit of the byte is reached in two shifts: back to the channel's number, then within it.
  rw [← hbit, Bytes.bitAt, hfirst, hsplit, Nat.pow_add, ← Nat.div_div_eq_div_mul]
  show (c.value bytes start).toNat / _ / _ % 2 = _
  rw [value, UInt8.toNat_ofNat_of_lt' hlt, hdiv]

end Channel

namespace Channels

/-- The channels, each with the byte of a pixel that shows it. -/
def shown (c : Channels) (p : Pixel) : List (Channel × UInt8) :=
  [(c.red, p.red), (c.green, p.green), (c.blue, p.blue), (c.alpha, p.alpha)]

/-- A bit of the texel with this pixel. -/
def texelBit (c : Channels) (p : Pixel) (i : Nat) : Nat :=
  match (c.shown p).find? fun s => s.1.Has i with
  | some (channel, b) => Bytes.bitAt [b] (i - channel.first)
  | none => 0

/-- Every one of a texel's bits belongs to a channel, and each channel keeps its bits. -/
def Cover (c : Channels) (bits : Nat) : Prop :=
  (∀ channel ∈ [c.red, c.green, c.blue, c.alpha], channel.count ∈ Channel.widths) ∧
    ∀ i < bits, ∃ channel ∈ [c.red, c.green, c.blue, c.alpha], channel.Has i

instance (c : Channels) (bits : Nat) : Decidable (c.Cover bits) :=
  inferInstanceAs (Decidable (_ ∧ _))

theorem cover_of_channels? {format : TexelFormat} {c : Channels}
    (h : format.channels? = some c) : c.Cover format.bitsPerTexel := by
  cases format with
  | ci4 | ci8 => cases h
  | rgba16 | rgba32 | ia4 | ia8 | ia16 | i4 | i8 =>
    obtain rfl := Option.some.inj h
    decide

theorem texelBit_pixel {c : Channels} {bits : Nat} (h : c.Cover bits) (bytes : Bytes)
    (start : Nat) {i : Nat} (hi : i < bits) :
    c.texelBit (c.pixel bytes start) i = bytes.bitAt (start + i) := by
  have hshown : c.shown (c.pixel bytes start) =
      [c.red, c.green, c.blue, c.alpha].map fun channel => (channel, channel.value bytes start) :=
    rfl
  obtain ⟨channel, hmem, hhas⟩ := h.2 i hi
  rw [texelBit, hshown, List.find?_map]
  -- One intensity is shown by several bytes; any of them will do, so the first one found does.
  cases hfound : [c.red, c.green, c.blue, c.alpha].find? _ with
  | none => exact absurd hhas (by simpa using List.find?_eq_none.mp hfound channel hmem)
  | some found =>
    have hdecide := List.find?_some hfound
    have hhas : found.Has i := of_decide_eq_true hdecide
    have hwidth := h.1 found (List.mem_of_find?_eq_some hfound)
    show Bytes.bitAt [found.value bytes start] (i - found.first) = _
    rw [Channel.bitAt_value hwidth bytes start (Nat.sub_lt_left_of_lt_add hhas.1 hhas.2),
      Nat.add_assoc, Nat.add_sub_cancel' hhas.1]

end Channels

/-! ### Images -/

namespace PixelBuffer

/-- A bit of the texels in a format that have an image's pixels; zero beyond the last one. -/
def texelBit (image : PixelBuffer) (format : TexelFormat) (i : Nat) : Nat :=
  match format.channels?, image.pixel? (i / format.bitsPerTexel) with
  | some c, some p => c.texelBit p (i % format.bitsPerTexel)
  | _, _ => 0

/-- The bytes of the texels in a format that have an image's pixels. -/
def repack (image : PixelBuffer) (format : TexelFormat) : Bytes :=
  .ofBits (image.texelBit format)
    ((image.width.toNat * image.height.toNat * format.bitsPerTexel) ⌈/⌉ 8)

end PixelBuffer

namespace Texture

/-- Whether the last texel ends in the middle of a byte. -/
def EndsInByte (t : Texture) : Prop :=
  t.format.bitsPerTexel = 4 ∧ t.texelCount % 2 = 1

instance (t : Texture) : Decidable t.EndsInByte :=
  inferInstanceAs (Decidable (_ ∧ _))

/-- The bytes of the texels. Of a byte in which the last texel ends only the upper half is taken. -/
def texelBytes (t : Texture) (raw : Bytes) : Bytes :=
  if t.EndsInByte then
    raw.take (t.texelLength - 1) ++
      [.ofNat ((raw.byteAt (t.texelLength - 1)).toNat / 16 * 16)]
  else raw.take t.texelLength

theorem eight_mul_texelLength (t : Texture) : 8 * t.texelLength =
    t.texelCount * t.format.bitsPerTexel + if t.EndsInByte then 4 else 0 := by
  rw [texelLength, ← texelCount]
  by_cases hends : t.EndsInByte
  · rw [if_pos hends, hends.1]
    have := hends.2
    omega
  · rw [if_neg hends]
    have hbits : t.format.bitsPerTexel = 4 ∨ 8 ∣ t.format.bitsPerTexel := by
      cases t.format <;> decide
    rcases hbits with hbits | ⟨bytes, hbits⟩
    · have heven : ¬ t.texelCount % 2 = 1 := fun hodd => hends ⟨hbits, hodd⟩
      rw [hbits]
      omega
    · rw [hbits, Nat.mul_left_comm]
      omega

end Texture

theorem Bytes.bitAt_upperHalf (b : UInt8) {i : Nat} (hi : i < 8) :
    bitAt [.ofNat (b.toNat / 16 * 16)] i = if i < 4 then bitAt [b] i else 0 := by
  have hb := b.toNat_lt
  interval_cases i <;> simp [bitAt, byteAt] <;> omega

namespace Texture

variable {t : Texture} {raw : Bytes}

theorem length_texelBytes (h : t.texelLength ≤ raw.length) :
    (t.texelBytes raw).length = t.texelLength := by
  have hlength := t.eight_mul_texelLength
  rw [texelBytes]
  split_ifs at hlength ⊢ <;> simp <;> omega

/-- The bits of the texels, and none behind them. -/
theorem bitAt_texelBytes (h : t.texelLength ≤ raw.length) {i : Nat} (hi : i < 8 * t.texelLength) :
    Bytes.bitAt (t.texelBytes raw) i =
      if i < t.texelCount * t.format.bitsPerTexel then raw.bitAt i else 0 := by
  have hlength := t.eight_mul_texelLength
  by_cases hends : t.EndsInByte
  · rw [if_pos hends] at hlength
    rw [texelBytes, if_pos hends]
    have hhead : (raw.take (t.texelLength - 1)).length = t.texelLength - 1 :=
      List.length_take_of_le (by omega)
    by_cases hin : i < 8 * (t.texelLength - 1)
    · rw [if_pos (by omega), Bytes.bitAt_append_left _ _ (by rwa [hhead]),
        Bytes.bitAt_take _ _ hin]
    · obtain ⟨j, rfl⟩ := Nat.exists_eq_add_of_le (Nat.le_of_not_lt hin)
      have hright := Bytes.bitAt_append_right (raw.take (t.texelLength - 1))
        [.ofNat ((raw.byteAt (t.texelLength - 1)).toNat / 16 * 16)] j
      rw [hhead] at hright
      rw [hright, Bytes.bitAt_upperHalf _ (by omega), Bytes.bitAt_singleton _ _ (by omega)]
      exact if_congr (by omega) rfl rfl
  · rw [if_neg hends] at hlength
    rw [texelBytes, if_neg hends, if_pos (by omega), Bytes.bitAt_take _ _ hi]

/-- Data that agree in the bytes of their texels agree in the bits of their texels. -/
theorem bitAt_of_texelBytes {raw' : Bytes} (hlong : t.texelLength ≤ raw.length)
    (hlong' : t.texelLength ≤ raw'.length) (h : t.texelBytes raw = t.texelBytes raw') {i : Nat}
    (hi : i < t.texelCount * t.format.bitsPerTexel) : raw.bitAt i = raw'.bitAt i := by
  have hle : i < 8 * t.texelLength := by
    rw [eight_mul_texelLength]
    exact Nat.lt_of_lt_of_le hi (Nat.le_add_right _ _)
  have hbit := bitAt_texelBytes hlong hle
  have hbit' := bitAt_texelBytes hlong' hle
  rw [if_pos hi] at hbit hbit'
  rw [← hbit, ← hbit', h]

end Texture

namespace Codec

variable {t : Texture} {raw raw' : Bytes} {image : PixelBuffer}

/-- The bits of the texels can be read off the image. -/
theorem texelBit_of_packed (hformat : t.format.paletteLength = 0)
    (h : packed t raw = .ok image) (i : Nat) : image.texelBit t.format i =
      if i < t.texelCount * t.format.bitsPerTexel then raw.bitAt i else 0 := by
  obtain ⟨c, hchannels⟩ := TexelFormat.exists_channels_iff.mpr hformat
  have hbits : 0 < t.format.bitsPerTexel := by
    cases t.format <;> decide
  have hin := Nat.div_lt_iff_lt_mul (x := i) (y := t.texelCount) hbits
  rw [PixelBuffer.texelBit, hchannels, pixel?_of_packed h]
  by_cases hi : i < t.texelCount * t.format.bitsPerTexel
  · rw [if_pos hi, if_pos (hin.mpr hi), Texture.pixelAt, hchannels]
    show c.texelBit (c.pixel (t.texels raw) _) (i % t.format.bitsPerTexel) = _
    rw [Channels.texelBit_pixel (Channels.cover_of_channels? hchannels) _ _ (Nat.mod_lt i hbits),
      Nat.div_add_mod', Texture.texels, hformat, List.drop_zero]
  · rw [if_neg hi, if_neg (mt hin.mp hi)]

theorem repack_of_packed (hformat : t.format.paletteLength = 0)
    (h : packed t raw = .ok image) : image.repack t.format = t.texelBytes raw := by
  have hbits := texelBit_of_packed hformat h
  obtain ⟨-, hlong, rfl⟩ := packed_eq_ok_iff.mp h
  rw [Texture.needed_eq, hformat, Nat.zero_add] at hlong
  have hlength := Texture.length_texelBytes hlong
  have hcount : (t.texelCount * t.format.bitsPerTexel) ⌈/⌉ 8 = (t.texelBytes raw).length := by
    rw [hlength, Nat.ceilDiv_eq_add_pred_div]
    rfl
  rw [PixelBuffer.repack, ← Texture.texelCount, hcount]
  refine Bytes.ofBits_eq fun i hi => ?_
  rw [hbits, Texture.bitAt_texelBytes hlong (by rwa [← hlength])]

/-- Data that agree in the bytes of their texels have the same pixels. -/
theorem packed_congr_texelBytes (hformat : t.format.paletteLength = 0)
    (hlong : t.needed ≤ raw.length) (hlong' : t.needed ≤ raw'.length)
    (h : t.texelBytes raw = t.texelBytes raw') : packed t raw = packed t raw' := by
  by_cases hempty : t.width = 0 ∨ t.height = 0
  · rw [packed_of_empty raw hempty, packed_of_empty raw' hempty]
  · have hpixels : ∀ n ∈ List.range t.texelCount, t.pixelAt raw n = t.pixelAt raw' n := by
      intro n hn
      have hle : (n + 1) * t.format.bitsPerTexel ≤ t.texelCount * t.format.bitsPerTexel :=
        Nat.mul_le_mul_right _ (List.mem_range.mp hn)
      rw [Nat.succ_mul] at hle
      rw [Texture.needed_eq, hformat, Nat.zero_add] at hlong hlong'
      rw [← t.colour_number, ← t.colour_number]
      simp only [Texture.number, Texture.texels, Texture.paletteBytes, hformat, List.drop_zero,
        List.take_zero]
      congr 1
      exact spell_congr fun i hi =>
        Texture.bitAt_of_texelBytes hlong hlong' h (Nat.lt_of_lt_of_le hi hle)
    rw [packed_of_long hempty hlong, packed_of_long hempty hlong', List.map_congr_left hpixels]

/-- In a format without indices no texel is lost: the bytes of the texels can be put together from
the image, and two unpackings have the same pixels where these bytes are the same and only there. -/
theorem texels_recovered (hformat : t.format.paletteLength = 0) (h : packed t raw = .ok image) :
    image.repack t.format = t.texelBytes raw ∧
    ∀ raw' image', packed t raw' = .ok image' →
      (image'.rgba = image.rgba ↔ t.texelBytes raw' = t.texelBytes raw) := by
  refine ⟨repack_of_packed hformat h, fun raw' image' h' => ⟨fun hrgba => ?_, fun hbytes => ?_⟩⟩
  · have himage : image' = image := by
      obtain ⟨-, -, rfl⟩ := packed_eq_ok_iff.mp h
      obtain ⟨-, -, rfl⟩ := packed_eq_ok_iff.mp h'
      rw [PixelBuffer.mk.injEq]
      exact ⟨rfl, rfl, hrgba⟩
    rw [← repack_of_packed hformat h, ← repack_of_packed hformat h', himage]
  · have hlong := (packed_eq_ok_iff.mp h).2.1
    have hlong' := (packed_eq_ok_iff.mp h').2.1
    rw [packed_congr_texelBytes hformat hlong' hlong hbytes, h] at h'
    rw [Except.ok.inj h']

theorem texels_recovered_stripe : ∃ image, packed sampleStripe [0xF1, 0x8F] = .ok image ∧
    image.repack .ia4 = [0xF1, 0x80] ∧
    (∃ image', packed sampleStripe [0xF1, 0x83, 7] = .ok image' ∧ image'.rgba = image.rgba) ∧
    ∀ image', packed sampleStripe [0xF1, 0x9F] = .ok image' → image'.rgba ≠ image.rgba := by
  obtain ⟨image, himage⟩ : ∃ image, packed sampleStripe [0xF1, 0x8F] = .ok image :=
    ⟨_, packed_of_long (by decide) (by decide)⟩
  obtain ⟨image', himage'⟩ : ∃ image, packed sampleStripe [0xF1, 0x83, 7] = .ok image :=
    ⟨_, packed_of_long (by decide) (by decide)⟩
  obtain ⟨hrepack, hsame⟩ := texels_recovered (by decide) himage
  refine ⟨image, himage, hrepack, ⟨image', himage', (hsame _ _ himage').mpr (by decide)⟩, ?_⟩
  intro other hother hrgba
  exact absurd ((hsame _ _ hother).mp hrgba) (by decide)

end Codec

end DisplayList

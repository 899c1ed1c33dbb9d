import DisplayList.Journal
import DisplayList.Proofs.Texels

/-!
# Unpacking texels

The image of a texture has one pixel for each texel, row by row. Only the bytes that have to be
there are looked at: an unpacking that goes through the texels one by one and asks for every byte,
and watches every number that is counted in 64 bits, comes to the same image or the same refusal.
-/
namespace DisplayList

/-! ### Images -/

/-- The bytes of one pixel among those of many. -/
theorem Pixel.slice?_flatMap {pixels : List Pixel} {n : Nat} {p : Pixel}
    (h : pixels[n]? = some p) : Bytes.slice? (pixels.flatMap bytes) (4 * n) 4 = some p.bytes := by
  induction pixels generalizing n with
  | nil => cases h
  | cons q rest ih =>
    rw [List.flatMap_cons]
    cases n with
    | zero =>
      obtain rfl : q = p := Option.some.inj h
      simp [Bytes.slice?_eq, bytes]
    | succ n =>
      rw [← ih h]
      have hstart : 4 * (n + 1) = q.bytes.length + 4 * n := by
        rw [length_bytes]
        omega
      simp only [Bytes.slice?_eq, hstart, List.drop_length_add_append, List.length_append,
        Nat.add_assoc, Nat.add_le_add_iff_left]

theorem Pixel.length_flatMap (pixels : List Pixel) :
    (pixels.flatMap bytes).length = 4 * pixels.length := by
  simp [List.length_flatMap, Nat.mul_comm]

/-- A pixel of an image. -/
def PixelBuffer.pixel? (image : PixelBuffer) (n : Nat) : Option Pixel :=
  match image.rgba.slice? (4 * n) 4 with
  | some [red, green, blue, alpha] => some ⟨red, green, blue, alpha⟩
  | _ => none

/-- An image shows the texels of a texture, row by row. -/
structure PixelBuffer.Shows (image : PixelBuffer) (t : Texture) (raw : Bytes) : Prop where
  width_eq : image.width = t.width
  height_eq : image.height = t.height
  length_eq : image.rgba.length = 4 * (t.width.toNat * t.height.toNat)
  pixel : ∀ x y, x < t.width.toNat → y < t.height.toNat →
    image.rgba.slice? (4 * (y * t.width.toNat + x)) 4 =
      some (t.pixelAt raw (y * t.width.toNat + x)).bytes

namespace Codec

variable {t : Texture} {raw : Bytes}

theorem packed_of_empty (raw : Bytes) (h : t.width = 0 ∨ t.height = 0) :
    packed t raw = .error (.emptyDimensions t.width t.height) := by
  rw [packed, if_pos h]

theorem packed_of_short (h : ¬ (t.width = 0 ∨ t.height = 0)) (hshort : raw.length < t.needed) :
    packed t raw = .error (.shortData t.needed raw.length) := by
  rw [Texture.needed_eq] at hshort ⊢
  simp only [packed, if_neg h, if_pos hshort]

/-- The pixels of an image are those of the texels, one after the other. -/
theorem packed_of_long (h : ¬ (t.width = 0 ∨ t.height = 0)) (hlong : t.needed ≤ raw.length) :
    packed t raw = .ok ⟨t.width, t.height,
      ((List.range t.texelCount).map (t.pixelAt raw)).flatMap Pixel.bytes⟩ := by
  have hshown := t.take_unpack raw hlong
  have hcolours : (List.range t.texelCount).map (t.pixelAt raw) =
      ((List.range t.texelCount).map (t.number raw)).map
        (Texels.colour t.format (Texels.paletteColours (t.paletteBytes raw))) := by
    rw [List.map_map]
    exact List.map_congr_left fun n _ => (t.colour_number raw n).symm
  rw [hcolours, ← hshown, List.flatMap_map]
  rw [Texture.needed_eq] at hlong ⊢
  simp only [packed, if_neg h, if_neg (Nat.not_lt.mpr hlong)]
  rfl

/-- The image of a texture, if there is one. -/
theorem packed_eq_ok_iff {image : PixelBuffer} : packed t raw = .ok image ↔
    ¬ (t.width = 0 ∨ t.height = 0) ∧ t.needed ≤ raw.length ∧
      image = ⟨t.width, t.height,
        ((List.range t.texelCount).map (t.pixelAt raw)).flatMap Pixel.bytes⟩ := by
  by_cases hempty : t.width = 0 ∨ t.height = 0
  · simp [packed_of_empty raw hempty, hempty]
  · by_cases hshort : raw.length < t.needed
    · simp [packed_of_short hempty hshort, hshort]
    · have hlong : t.needed ≤ raw.length := Nat.le_of_not_lt hshort
      simp [packed_of_long hempty hlong, hempty, hlong, eq_comm]

theorem slice?_of_packed {image : PixelBuffer} (h : packed t raw = .ok image) {n : Nat}
    (hn : n < t.texelCount) : image.rgba.slice? (4 * n) 4 = some (t.pixelAt raw n).bytes := by
  obtain ⟨-, -, rfl⟩ := packed_eq_ok_iff.mp h
  refine Pixel.slice?_flatMap ?_
  rw [List.getElem?_map, List.getElem?_range hn, Option.map_some]

theorem pixel?_of_packed (h : packed t raw = .ok image) (n : Nat) :
    image.pixel? n = if n < t.texelCount then some (t.pixelAt raw n) else none := by
  rw [PixelBuffer.pixel?]
  split_ifs with hn
  · rw [slice?_of_packed h hn]
    rfl
  · obtain ⟨-, -, rfl⟩ := packed_eq_ok_iff.mp h
    rw [Bytes.slice?_eq, Pixel.length_flatMap, List.length_map, List.length_range,
      if_neg (by omega)]

theorem shows_of_packed {image : PixelBuffer} (h : packed t raw = .ok image) :
    image.Shows t raw := by
  have hpixel := fun n => slice?_of_packed (n := n) h
  obtain ⟨-, -, rfl⟩ := packed_eq_ok_iff.mp h
  refine ⟨rfl, rfl, ?_, fun x y hx hy => hpixel _ ?_⟩
  · rw [Pixel.length_flatMap, List.length_map, List.length_range, Texture.texelCount]
  · have hrow : (y + 1) * t.width.toNat ≤ t.height.toNat * t.width.toNat :=
      Nat.mul_le_mul_right _ hy
    rw [Nat.succ_mul, Nat.mul_comm t.height.toNat] at hrow
    rw [Texture.texelCount]
    omega

/-- What comes behind the bytes that have to be there is not looked at. -/
theorem packed_congr {raw' : Bytes} (h : raw.take t.needed = raw'.take t.needed) :
    packed t raw = packed t raw' := by
  by_cases hempty : t.width = 0 ∨ t.height = 0
  · rw [packed_of_empty raw hempty, packed_of_empty raw' hempty]
  · have hlengths := congrArg List.length h
    rw [List.length_take, List.length_take] at hlengths
    by_cases hshort : raw.length < t.needed
    · have hsame : raw = raw' := by
        rwa [List.take_of_length_le (by omega), List.take_of_length_le (by omega)] at h
      rw [hsame]
    · have hpalette : raw.take t.format.paletteLength = raw'.take t.format.paletteLength := by
        have hle : t.format.paletteLength ≤ t.needed := Nat.le_add_right _ _
        rw [← Nat.min_eq_left hle, ← List.take_take, h, List.take_take]
      rw [Texture.needed_eq] at h hshort hlengths
      simp only [packed, if_neg hempty, if_neg hshort, hpalette, h]
      rw [if_neg (by omega)]

/-! ### Looking at every byte -/

/-- Why a checked unpacking gives nothing: the texture is refused, a byte is asked for that is not
there, or a number does not fit into its bits. -/
inductive UnpackFault
  | refused (e : CodecError)
  | missing (offset : Nat)
  | overflow (n : Nat)
  deriving DecidableEq, Repr

namespace Checked

/-- A number that has to fit into some bits. -/
def fit (bits n : Nat) : Except UnpackFault Nat :=
  if n < 2 ^ bits then .ok n else .error (.overflow n)

/-- The byte at an offset, if it is there. -/
def byteAt (bytes : Bytes) (offset : Nat) : Except UnpackFault UInt8 := do
  match bytes[← fit 64 offset]? with
  | some b => return b
  | none => throw (.missing offset)

/-- The bytes from one offset to another one, if all of them are there. -/
def bytesFrom (bytes : Bytes) (start stop : Nat) : Except UnpackFault Bytes :=
  if start ≤ stop ∧ stop ≤ bytes.length then .ok ((bytes.take stop).drop start)
  else .error (.missing stop)

/-- The number in the half of a byte. -/
def halfByte (bytes : Bytes) (n : Nat) : Except UnpackFault Nat := do
  let b ← byteAt bytes (n / 2)
  return if n % 2 = 0 then b.toNat / 16 else b.toNat % 16

/-- A channel that has to fit into a byte. -/
def channel (n : Nat) : Except UnpackFault UInt8 := do
  return .ofNat (← fit 8 n)

/-- The colour at a place of a palette. -/
def entry (palette : Bytes) (n : Nat) : Except UnpackFault Pixel := do
  match palette.slice? (← fit 64 (n * 2)) 2 with
  | some pair => return .of5551 (Bytes.word16 (← byteAt pair 0) (← byteAt pair 1)).toNat
  | none => return .transparent

/-- The pixel of one texel. -/
def pixel (format : TexelFormat) (palette texels : Bytes) (n : Nat) :
    Except UnpackFault Pixel := do
  match format with
  | .rgba16 =>
    return .of5551 (Bytes.word16 (← byteAt texels (n * 2)) (← byteAt texels (n * 2 + 1))).toNat
  | .rgba32 =>
    return ⟨← byteAt texels (n * 4), ← byteAt texels (n * 4 + 1), ← byteAt texels (n * 4 + 2),
      ← byteAt texels (n * 4 + 3)⟩
  | .ci4 => entry palette (← halfByte texels n)
  | .ci8 => entry palette (← byteAt texels n).toNat
  | .ia4 =>
    let number ← halfByte texels n
    return .grey (← channel (number / 2 * 255 / 7)) (Pixel.coverage number)
  | .ia8 =>
    let b ← byteAt texels n
    return .grey (← channel (b.toNat / 16 * 17)) (← channel (b.toNat % 16 * 17))
  | .ia16 => return .grey (← byteAt texels (n * 2)) (← byteAt texels (n * 2 + 1))
  | .i4 =>
    let intensity ← channel ((← halfByte texels n) * 17)
    return .grey intensity intensity
  | .i8 =>
    let intensity ← byteAt texels n
    return .grey intensity intensity

/-- The bytes of the first pixels, one pixel after the other. -/
def pixels (format : TexelFormat) (palette texels : Bytes) : Nat → Except UnpackFault Bytes
  | 0 => return []
  | n + 1 => do
    let before ← pixels format palette texels n
    return before ++ (← pixel format palette texels n).bytes

/-- The palette that was loaded, else the embedded one. -/
def paletteBytes (t : Texture) (raw : Bytes) : Except UnpackFault Bytes :=
  match t.palette with
  | some loaded => .ok loaded
  | none => bytesFrom raw 0 t.format.paletteLength

/-- Unpacks texels one by one. -/
def packed (t : Texture) (raw : Bytes) : Except UnpackFault PixelBuffer :=
  if t.width = 0 ∨ t.height = 0 then .error (.refused (.emptyDimensions t.width t.height))
  else do
    let count ← fit 64 (t.width.toNat * t.height.toNat)
    let bits ← fit 64 (count * t.format.bitsPerTexel)
    let needed ← fit 64 (t.format.paletteLength + (bits + 7) / 8)
    if raw.length < needed then throw (.refused (.shortData needed raw.length))
    else
      let palette ← paletteBytes t raw
      let texels ← bytesFrom raw t.format.paletteLength needed
      let _ ← fit 64 (count * 4)
      return ⟨t.width, t.height, ← pixels t.format palette texels count⟩

section Texels

variable {palette texels : Bytes} {n : Nat}

theorem fit_of_lt {bits : Nat} (h : n < 2 ^ bits) : fit bits n = .ok n :=
  if_pos h

theorem byteAt_of_lt (h : n < texels.length) (hlength : texels.length ≤ 2 ^ 64) :
    byteAt texels n = .ok (texels.byteAt n) := by
  rw [byteAt, fit_of_lt (Nat.lt_of_lt_of_le h hlength), Bytes.byteAt]
  simp [bind, Except.bind, pure, Except.pure, h]

theorem halfByte_of_le (h : n * 4 + 4 ≤ 8 * texels.length) (hlength : texels.length ≤ 2 ^ 64) :
    halfByte texels n = .ok (texels.field (n * 4) 4) := by
  rw [halfByte, byteAt_of_lt (by omega) hlength]
  rcases Nat.mod_two_eq_zero_or_one n with hn | hn
  · have hstart : n * 4 = 8 * (n / 2) := by omega
    rw [hstart, Bytes.field_upperHalf]
    simp [bind, Except.bind, pure, Except.pure, hn]
  · have hstart : n * 4 = 8 * (n / 2) + 4 := by omega
    rw [hstart, Bytes.field_lowerHalf]
    simp [bind, Except.bind, pure, Except.pure, hn]

theorem channel_of_lt (h : n < 2 ^ 8) : channel n = .ok (.ofNat n) := by
  rw [channel, fit_of_lt h]
  rfl

theorem entry_eq (palette : Bytes) (h : n < 256) :
    entry palette n = .ok (paletteEntry palette n) := by
  have hfit : n * 2 < 2 ^ 64 := by omega
  rw [entry, fit_of_lt hfit, paletteEntry]
  show (match palette.slice? (n * 2) 2 with
    | some pair => _
    | none => _) = _
  by_cases hin : 2 * n + 2 ≤ palette.length
  · have hpair : (((palette.drop (n * 2)).take 2).length) = 2 := by
      rw [List.length_take, List.length_drop]
      omega
    have hword : Bytes.word16 (Bytes.byteAt ((palette.drop (n * 2)).take 2) 0)
        (Bytes.byteAt ((palette.drop (n * 2)).take 2) 1) = palette.word16At (n * 2) := by
      simp [Bytes.word16At, Bytes.byteAt, List.getElem?_take_of_lt]
    have hstart : 16 * n = 8 * (n * 2) := by omega
    rw [Bytes.slice?_eq, if_pos (by omega), if_pos hin, hstart, ← Pixel.of5551_eq,
      Bytes.field_word16, ← hword]
    dsimp only
    rw [byteAt_of_lt (by omega) (by omega), byteAt_of_lt (by omega) (by omega)]
    rfl
  · rw [Bytes.slice?_eq, if_neg (by omega), if_neg hin]
    rfl

/-- A pixel is the one of its texel's bits, all of which are there. -/
theorem pixel_eq (format : TexelFormat)
    (h : n * format.bitsPerTexel + format.bitsPerTexel ≤ 8 * texels.length)
    (hlength : texels.length ≤ 2 ^ 64) : pixel format palette texels n =
      .ok (Texels.colour format (Texels.paletteColours palette)
        (texels.field (n * format.bitsPerTexel) format.bitsPerTexel)) := by
  have hfield := texels.field_lt (n * format.bitsPerTexel) format.bitsPerTexel
  have hbyte (offset : Nat) (hoffset : offset < texels.length) :
      byteAt texels offset = .ok (texels.byteAt offset) := byteAt_of_lt hoffset hlength
  cases format with
  | rgba16 =>
    simp only [TexelFormat.bitsPerTexel] at *
    have hstart : n * 16 = 8 * (n * 2) := by omega
    rw [pixel, hbyte _ (by omega), hbyte _ (by omega), hstart, Bytes.field_word16]
    rfl
  | rgba32 =>
    rw [Texels.colour_eq_pixel rfl]
    simp only [TexelFormat.bitsPerTexel] at *
    have hstart : n * 32 = 8 * (n * 4) := by omega
    have hvalue := fun k => Channel.value_byte k texels (n * 4)
    rw [pixel, hbyte _ (by omega), hbyte _ (by omega), hbyte _ (by omega), hbyte _ (by omega),
      hstart]
    show Except.ok (Pixel.mk (texels.byteAt (n * 4 + 0)) (texels.byteAt (n * 4 + 1))
      (texels.byteAt (n * 4 + 2)) (texels.byteAt (n * 4 + 3))) = _
    rw [← hvalue 0, ← hvalue 1, ← hvalue 2, ← hvalue 3]
    rfl
  | ci4 =>
    simp only [TexelFormat.bitsPerTexel] at *
    rw [pixel, halfByte_of_le h hlength, Texels.colour, Texels.getD_paletteColours]
    exact entry_eq palette (by omega)
  | ci8 =>
    simp only [TexelFormat.bitsPerTexel] at *
    rw [pixel, hbyte _ (by omega), Texels.colour, Texels.getD_paletteColours, Nat.mul_comm,
      Bytes.field_byte]
    exact entry_eq palette (UInt8.toNat_lt _)
  | ia4 =>
    simp only [TexelFormat.bitsPerTexel] at *
    rw [pixel, halfByte_of_le h hlength, ok_bind, channel_of_lt (by omega)]
    rfl
  | ia8 =>
    simp only [TexelFormat.bitsPerTexel] at *
    have hb := (texels.byteAt n).toNat_lt
    rw [pixel, hbyte _ (by omega), Nat.mul_comm, Bytes.field_byte, ok_bind,
      channel_of_lt (by omega), channel_of_lt (by omega)]
    rfl
  | ia16 =>
    rw [Texels.colour_eq_pixel rfl]
    simp only [TexelFormat.bitsPerTexel] at *
    have hstart : n * 16 = 8 * (n * 2) := by omega
    have hvalue := fun k => Channel.value_byte k texels (n * 2)
    rw [pixel, hbyte _ (by omega), hbyte _ (by omega), hstart]
    show Except.ok (Pixel.grey (texels.byteAt (n * 2 + 0)) (texels.byteAt (n * 2 + 1))) = _
    rw [← hvalue 0, ← hvalue 1]
    rfl
  | i4 =>
    simp only [TexelFormat.bitsPerTexel] at *
    rw [pixel, halfByte_of_le h hlength, ok_bind, channel_of_lt (by omega)]
    rfl
  | i8 =>
    rw [Texels.colour_eq_pixel rfl]
    simp only [TexelFormat.bitsPerTexel] at *
    rw [pixel, hbyte _ (by omega), Nat.mul_comm]
    show Except.ok (Pixel.grey (texels.byteAt (n + 0)) (texels.byteAt (n + 0))) = _
    rw [← Channel.value_byte 0 texels n]
    rfl

theorem pixels_eq (format : TexelFormat) {count : Nat}
    (h : ∀ n < count, n * format.bitsPerTexel + format.bitsPerTexel ≤ 8 * texels.length)
    (hlength : texels.length ≤ 2 ^ 64) : pixels format palette texels count =
      .ok (((List.range count).map fun n => Texels.colour format (Texels.paletteColours palette)
        (texels.field (n * format.bitsPerTexel) format.bitsPerTexel)).flatMap Pixel.bytes) := by
  induction count with
  | zero => rfl
  | succ count ih =>
    rw [pixels, ih fun n hn => h n (Nat.lt_succ_of_lt hn),
      pixel_eq format (h count (Nat.lt_succ_self count)) hlength, List.range_succ]
    simp only [List.map_append, List.map_singleton, List.flatMap_append, List.flatMap_singleton]
    rfl

end Texels

theorem bytesFrom_of_le {bytes : Bytes} {start stop : Nat} (h : start ≤ stop)
    (hstop : stop ≤ bytes.length) :
    bytesFrom bytes start stop = .ok ((bytes.take stop).drop start) :=
  if_pos ⟨h, hstop⟩

theorem paletteBytes_of_le {t : Texture} {raw : Bytes}
    (h : t.format.paletteLength ≤ raw.length) :
    paletteBytes t raw = .ok (t.paletteBytes raw) := by
  rw [paletteBytes, Texture.paletteBytes]
  cases t.palette with
  | some loaded => rfl
  | none => exact bytesFrom_of_le (Nat.zero_le _) h

section Packed

variable {t : Texture} {raw : Bytes}

theorem texelBits_le (t : Texture) : t.texelCount * t.format.bitsPerTexel ≤ t.texelCount * 32 :=
  Nat.mul_le_mul_left _ (by cases t.format <;> decide)

theorem needed_lt (h : t.texelCount * 32 < 2 ^ 64) : t.needed < 2 ^ 64 := by
  have hbits := texelBits_le t
  have hpalette : t.format.paletteLength ≤ 512 := by cases t.format <;> decide
  rw [Texture.needed, Nat.ceilDiv_eq_add_pred_div]
  omega

/-- Sizes that fit are counted as they are. -/
theorem packed_of_extent (hextent : ¬ (t.width = 0 ∨ t.height = 0))
    (h : t.texelCount * 32 < 2 ^ 64) : packed t raw =
      if raw.length < t.needed then .error (.refused (.shortData t.needed raw.length))
      else do
        let palette ← paletteBytes t raw
        let texels ← bytesFrom raw t.format.paletteLength t.needed
        return ⟨t.width, t.height, ← pixels t.format palette texels t.texelCount⟩ := by
  have hbits := texelBits_le t
  have hneeded : t.format.paletteLength + (t.texelCount * t.format.bitsPerTexel + 7) / 8 =
      t.needed := t.needed_eq.symm
  rw [packed, if_neg hextent, ← Texture.texelCount, fit_of_lt (by omega), ok_bind,
    fit_of_lt (by omega), ok_bind, hneeded, fit_of_lt (needed_lt h), ok_bind,
    fit_of_lt (by omega)]
  rfl

theorem packed_of_long (hextent : ¬ (t.width = 0 ∨ t.height = 0))
    (h : t.texelCount * 32 < 2 ^ 64) (hlong : t.needed ≤ raw.length) :
    packed t raw = .ok ⟨t.width, t.height,
      ((List.range t.texelCount).map (t.pixelAt raw)).flatMap Pixel.bytes⟩ := by
  have hstart : t.format.paletteLength ≤ t.needed := Nat.le_add_right _ _
  have hlength : ((raw.take t.needed).drop t.format.paletteLength).length ≤ 2 ^ 64 := by
    have hneeded := needed_lt h
    rw [List.length_drop, List.length_take]
    omega
  have hpixels : ((List.range t.texelCount).map fun n => Texels.colour t.format
      (Texels.paletteColours (t.paletteBytes raw))
      (Bytes.field ((raw.take t.needed).drop t.format.paletteLength)
        (n * t.format.bitsPerTexel) t.format.bitsPerTexel)) =
      (List.range t.texelCount).map (t.pixelAt raw) := by
    refine List.map_congr_left fun n hn => ?_
    rw [t.number_of_needed raw (List.mem_range.mp hn), t.colour_number]
  rw [packed_of_extent hextent h, if_neg (Nat.not_lt.mpr hlong),
    paletteBytes_of_le (hstart.trans hlong), ok_bind, bytesFrom_of_le hstart hlong, ok_bind,
    pixels_eq _ (fun n hn => t.texel_le_needed raw hn hlong) hlength, hpixels]
  rfl

end Packed

theorem packed_eq (t : Texture) (raw : Bytes)
    (h : t.width.toNat * t.height.toNat * 32 < 2 ^ 64) :
    packed t raw = (Codec.packed t raw).mapError .refused := by
  by_cases hempty : t.width = 0 ∨ t.height = 0
  · rw [packed, if_pos hempty, packed_of_empty raw hempty]
    rfl
  · by_cases hshort : raw.length < t.needed
    · rw [packed_of_extent hempty h, if_pos hshort, packed_of_short hempty hshort]
      rfl
    · have hlong : t.needed ≤ raw.length := Nat.le_of_not_lt hshort
      rw [packed_of_long hempty h hlong, Codec.packed_of_long hempty hlong]
      rfl

end Checked

/-- Unpacking refuses a texture without extent, then data that end too early, and else gives the
image that shows each texel by its bits. It depends on no byte but those that have to be there, and
where all sizes fit into 64 bits, it asks for no byte that is missing and no number wraps. -/
theorem packed_shows_texels (t : Texture) (raw : Bytes) :
    (packed t raw = .error (.emptyDimensions t.width t.height) ↔ t.width = 0 ∨ t.height = 0) ∧
    (¬ (t.width = 0 ∨ t.height = 0) →
      (packed t raw = .error (.shortData t.needed raw.length) ↔ raw.length < t.needed) ∧
      (t.needed ≤ raw.length → ∃ image, packed t raw = .ok image ∧ image.Shows t raw)) ∧
    (∀ raw', raw.take t.needed = raw'.take t.needed → packed t raw = packed t raw') ∧
    (t.width.toNat * t.height.toNat * 32 < 2 ^ 64 →
      Checked.packed t raw = (packed t raw).mapError .refused ∧
      (∀ offset, Checked.packed t raw ≠ .error (.missing offset)) ∧
      ∀ n, Checked.packed t raw ≠ .error (.overflow n)) := by
  refine ⟨?_, fun hextent => ⟨?_, fun hlong => ?_⟩, fun raw' => packed_congr, fun hsize => ?_⟩
  · refine ⟨fun h => ?_, packed_of_empty raw⟩
    by_contra hextent
    by_cases hshort : raw.length < t.needed
    · rw [packed_of_short hextent hshort] at h
      cases h
    · rw [packed_of_long hextent (Nat.le_of_not_lt hshort)] at h
      cases h
  · refine ⟨fun h => ?_, packed_of_short hextent⟩
    by_contra hlong
    rw [packed_of_long hextent (Nat.le_of_not_lt hlong)] at h
    cases h
  · have hok := packed_of_long hextent hlong
    exact ⟨_, hok, shows_of_packed hok⟩
  · rw [Checked.packed_eq t raw hsize]
    refine ⟨rfl, fun offset h => ?_, fun n h => ?_⟩ <;>
      cases hresult : packed t raw <;> simp [hresult, Except.mapError] at h

/-- Three texels, the last of them in the upper half of a byte. -/
def sampleStripe : Texture :=
  { dataOffset := 0, format := .ia4, width := 3, height := 1 }

theorem packed_shows_texels_stripe : ∃ image, packed sampleStripe [0xF1, 0x8F, 0xFF] = .ok image ∧
    image.Shows sampleStripe [0xF1, 0x8F, 0xFF] ∧
    image.rgba = [255, 255, 255, 255, 0, 0, 0, 255, 145, 145, 145, 0] ∧
    Checked.packed sampleStripe [0xF1, 0x8F, 0xFF] = .ok image := by
  obtain ⟨-, hextent, -, hchecked⟩ := packed_shows_texels sampleStripe [0xF1, 0x8F, 0xFF]
  obtain ⟨image, himage, hshows⟩ := (hextent (by decide)).2 (by decide)
  have hbytes : (packed sampleStripe [0xF1, 0x8F, 0xFF]).map PixelBuffer.rgba =
      .ok [255, 255, 255, 255, 0, 0, 0, 255, 145, 145, 145, 0] := by decide
  rw [himage] at hbytes
  refine ⟨image, himage, hshows, Except.ok.inj hbytes, ?_⟩
  rw [(hchecked (by decide)).1, himage]
  rfl

end Codec

end DisplayList

import DisplayList.Proofs.Unpacking
import DisplayList.Proofs.Table

/-!
# Loaded palettes

A palette is loaded from the texture's own bytes, from where its own palette starts. So the colours
of a loaded palette are those of the embedded one as far as they go, and all that loads can do to an
image is to leave out the colours behind the end of the last palette that was loaded.
-/
namespace DisplayList

/-- A load of a palette by the command at a position. -/
structure PaletteLoad where
  position : Nat
  size : Nat

namespace TextureTable

/-- The table after several loads for one texture. -/
def loadPalettes (table : TextureTable) (data : Bytes) (index : Nat)
    (loads : List PaletteLoad) : TextureTable :=
  loads.foldl (fun table load => (table.loadPalette data load.position index load.size).1) table

/-- The image of a texture after a material has been asked for, if there is one. -/
def imageFor? (table : TextureTable) (codec : Codec) (data : Bytes) (index : Nat)
    (wrapS wrapT : WrapMode) : Option PixelBuffer :=
  ((table.materialFor codec data index wrapS wrapT).1.pixels? index).join

end TextureTable

namespace Texture

/-- The size of the last palette that was wholly within the data. -/
def lastSize? (t : Texture) (data : Bytes) (loads : List PaletteLoad) : Option Nat :=
  ((loads.map PaletteLoad.size).filter fun size =>
    t.dataOffset.toNat + size ≤ data.length).getLast?

/-- Whether a texel is an index behind the end of the last palette that was loaded. -/
def Hidden (t : Texture) (data : Bytes) (loads : List PaletteLoad) (n : Nat) : Prop :=
  t.format.paletteLength ≠ 0 ∧ ∃ size ∈ t.lastSize? data loads,
    size < 2 * t.number (data.drop t.dataOffset.toNat) n + 2

instance (t : Texture) (data : Bytes) (loads : List PaletteLoad) (n : Nat) :
    Decidable (t.Hidden data loads n) :=
  inferInstanceAs (Decidable (_ ∧ _))

/-- A texture with the last palette that was within the data. -/
def afterLoads (t : Texture) (data : Bytes) (loads : List PaletteLoad) : Texture :=
  { t with palette :=
      ((t.lastSize? data loads).map (data.drop t.dataOffset.toNat).take).or t.palette }

@[simp] theorem afterLoads_dataOffset (t : Texture) (data : Bytes) (loads : List PaletteLoad) :
    (t.afterLoads data loads).dataOffset = t.dataOffset := rfl

end Texture

/-- An image that differs from a plain one only in hidden pixels, which show nothing. -/
structure PixelBuffer.Hides (hidden : Nat → Prop) (image plain : PixelBuffer) : Prop where
  width_eq : image.width = plain.width
  height_eq : image.height = plain.height
  length_eq : image.rgba.length = plain.rgba.length
  shown : ∀ n, ¬ hidden n → image.pixel? n = plain.pixel? n
  transparent : ∀ n < plain.width.toNat * plain.height.toNat, hidden n →
    image.pixel? n = some .transparent

/-! ### The colours of a palette -/

/-- A palette that is cut off shows the colours up to its end. -/
theorem paletteEntry_take {bytes : Bytes} {size : Nat} (h : size ≤ bytes.length) (n : Nat) :
    paletteEntry (bytes.take size) n =
      if 2 * n + 2 ≤ size then Channels.rgba16.pixel bytes (16 * n) else .transparent := by
  rw [paletteEntry, List.length_take_of_le h]
  split_ifs with hn
  · rw [← Pixel.of5551_eq, ← Pixel.of5551_eq, Bytes.field_take _ _ _ _ (by omega)]
  · rfl

namespace Texture

variable {t : Texture} {raw : Bytes}

/-- An embedded palette has all colours that a texel can be the index of. -/
theorem index_le (h : t.format.channels? = none) (raw : Bytes) (n : Nat) :
    2 * t.number raw n + 2 ≤ t.format.paletteLength := by
  have hlt := (t.texels raw).field_lt (n * t.format.bitsPerTexel) t.format.bitsPerTexel
  have hlength : 2 * 2 ^ t.format.bitsPerTexel = t.format.paletteLength := by
    revert h
    cases t.format <;> simp [TexelFormat.channels?, TexelFormat.paletteLength,
      TexelFormat.bitsPerTexel]
  rw [number]
  omega

/-- The pixels of a texture with a palette from the texture's own bytes. -/
theorem pixelAt_take (hpalette : t.palette = none) {size : Nat} (hsize : size ≤ raw.length)
    (hlong : t.format.paletteLength ≤ raw.length) (n : Nat) :
    pixelAt { t with palette := some (raw.take size) } raw n =
      if t.format.paletteLength ≠ 0 ∧ size < 2 * t.number raw n + 2 then .transparent
      else t.pixelAt raw n := by
  cases hchannels : t.format.channels? with
  | some c =>
    have hnone := TexelFormat.exists_channels_iff.mp ⟨c, hchannels⟩
    rw [if_neg fun h => h.1 hnone]
    simp only [pixelAt, hchannels]
    rfl
  | none =>
    have hindex := index_le hchannels raw n
    have hindexed : t.format.paletteLength ≠ 0 := by omega
    have hplain : t.pixelAt raw n = Channels.rgba16.pixel raw (16 * t.number raw n) := by
      rw [pixelAt, hchannels, paletteBytes, hpalette]
      exact (paletteEntry_take hlong _).trans (if_pos hindex)
    have hloaded : pixelAt { t with palette := some (raw.take size) } raw n =
        paletteEntry (raw.take size) (t.number raw n) := by
      simp only [pixelAt, hchannels]
      rfl
    rw [hloaded, paletteEntry_take hsize, hplain]
    by_cases hend : 2 * t.number raw n + 2 ≤ size
    · rw [if_pos hend, if_neg fun h => Nat.not_lt.mpr hend h.2]
    · rw [if_neg hend, if_pos ⟨hindexed, Nat.lt_of_not_le hend⟩]

theorem lastSize?_cons (data : Bytes) (load : PaletteLoad) (loads : List PaletteLoad) :
    t.lastSize? data (load :: loads) = (t.lastSize? data loads).or
      (if t.dataOffset.toNat + load.size ≤ data.length then some load.size else none) := by
  rw [lastSize?, lastSize?, List.map_cons, List.filter_cons]
  by_cases h : t.dataOffset.toNat + load.size ≤ data.length
  · rw [if_pos h, if_pos (decide_eq_true h), List.getLast?_cons]
    cases List.getLast? _ <;> rfl
  · rw [if_neg h, if_neg (by simpa using h), Option.or_none]

theorem lastSize?_le {data : Bytes} {loads : List PaletteLoad} {size : Nat}
    (h : size ∈ t.lastSize? data loads) : t.dataOffset.toNat + size ≤ data.length := by
  have hmem := List.mem_of_getLast? h
  simpa using (List.mem_filter.mp hmem).2

/-- After loads the pixels are the same but for the hidden ones. -/
theorem pixelAt_afterLoads (hpalette : t.palette = none) {data : Bytes}
    (hlong : t.format.paletteLength ≤ (data.drop t.dataOffset.toNat).length)
    (loads : List PaletteLoad) (n : Nat) :
    (t.afterLoads data loads).pixelAt (data.drop t.dataOffset.toNat) n =
      if t.Hidden data loads n then .transparent
      else t.pixelAt (data.drop t.dataOffset.toNat) n := by
  rw [afterLoads, hpalette, Option.or_none]
  cases hlast : t.lastSize? data loads with
  | none =>
    have hshown : ¬ t.Hidden data loads n := by
      rintro ⟨-, size, hsize, -⟩
      rw [hlast] at hsize
      cases hsize
    rw [if_neg hshown, Option.map_none, ← hpalette]
  | some size =>
    have hle : t.dataOffset.toNat + size ≤ data.length := lastSize?_le hlast
    refine (pixelAt_take hpalette (by rw [List.length_drop]; omega) hlong n).trans ?_
    refine if_congr ?_ rfl rfl
    simp only [Hidden, hlast, Option.mem_some_iff, exists_eq_left']

/-- A palette as long as the embedded one hides nothing. -/
theorem not_hidden {data : Bytes} {loads : List PaletteLoad}
    (h : ∀ size ∈ t.lastSize? data loads, t.format.paletteLength ≤ size) (n : Nat) :
    ¬ t.Hidden data loads n := by
  rintro ⟨hindexed, size, hsize, hlt⟩
  cases hchannels : t.format.channels? with
  | some c => exact hindexed (TexelFormat.exists_channels_iff.mp ⟨c, hchannels⟩)
  | none =>
    have hindex := index_le hchannels (data.drop t.dataOffset.toNat) n
    have hle := h size hsize
    omega

end Texture

/-! ### Loads and the table -/

namespace TextureTable

variable {table : TextureTable} {data : Bytes} {index : Nat} {t : Texture}

theorem getElem?_loadPalette (ht : table.textures[index]? = some t) (position size : Nat) :
    (table.loadPalette data position index size).1.textures[index]? =
      some { t with palette := (data.slice? t.dataOffset.toNat size).or t.palette } := by
  rw [loadPalette_eq, ht, Option.bind_some]
  cases data.slice? t.dataOffset.toNat size with
  | none => exact ht
  | some palette => simp [modify, Array.getElem?_modify, ht]

theorem keeps_loadPalettes (table : TextureTable) (data : Bytes) (index : Nat)
    (loads : List PaletteLoad) : table.Keeps (table.loadPalettes data index loads) := by
  induction loads generalizing table with
  | nil => exact .refl table
  | cons load loads ih => exact (table.keeps_loadPalette data _ index load.size).trans (ih _)

/-- The texture keeps the last palette that was within the data. -/
theorem getElem?_loadPalettes (ht : table.textures[index]? = some t) (loads : List PaletteLoad) :
    (table.loadPalettes data index loads).textures[index]? = some (t.afterLoads data loads) := by
  -- By the first load: what it leaves is the palette that the later loads may replace.
  induction loads generalizing table t with
  | nil => exact ht
  | cons load loads ih =>
    have hslice : data.slice? t.dataOffset.toNat load.size =
        (if t.dataOffset.toNat + load.size ≤ data.length then some load.size else none).map
          (data.drop t.dataOffset.toNat).take := by
      rw [Bytes.slice?_eq]
      split_ifs <;> rfl
    refine (ih (getElem?_loadPalette ht load.position load.size)).trans ?_
    rw [Texture.afterLoads, Texture.afterLoads, Texture.lastSize?_cons, Option.map_or,
      Option.or_assoc, ← hslice]
    rfl

variable {codec : Codec} {wrapS wrapT : WrapMode}

theorem imageFor?_of_new (ht : table.textures[index]? = some t) (hpixels : t.pixels = none)
    (hnew : table.materialOf? index = none) : table.imageFor? codec data index wrapS wrapT =
      (codec t (data.drop t.dataOffset.toNat)).toOption := by
  rw [imageFor?, materialFor_of_new codec wrapS wrapT ht hnew]
  show ((table.paint codec data index t).1.pixels? index).join = _
  rw [pixels?_paint _ _ _ _ ht, if_pos rfl, Texture.request?, if_neg (by simp [hpixels])]
  rfl

/-- What is reported when a texture without an image is painted. -/
theorem paint_journal (hpixels : t.pixels = none) : (table.paint codec data index t).2 =
    match codec t (data.drop t.dataOffset.toNat) with
    | .ok _ => []
    | .error e => [.problem (.textureDecode index e.message)] := by
  rw [paint, if_neg (by simp [hpixels])]
  dsimp only
  cases codec t (data.drop t.dataOffset.toNat) <;> rfl

end TextureTable

namespace Codec

/-- With another palette a texture is refused for the same reason or has an image as large. -/
theorem packed_withPalette (t : Texture) (raw : Bytes) (palette : Option Bytes) :
    packed { t with palette } raw = (packed t raw).map fun _ => ⟨t.width, t.height,
      ((List.range t.texelCount).map (Texture.pixelAt { t with palette } raw)).flatMap
        Pixel.bytes⟩ := by
  by_cases hempty : t.width = 0 ∨ t.height = 0
  · rw [packed_of_empty raw hempty]
    exact packed_of_empty raw hempty
  · by_cases hshort : raw.length < t.needed
    · rw [packed_of_short hempty hshort]
      exact packed_of_short hempty hshort
    · rw [packed_of_long hempty (Nat.le_of_not_lt hshort)]
      exact packed_of_long hempty (Nat.le_of_not_lt hshort)

variable {t : Texture} {data : Bytes} {loads : List PaletteLoad}

theorem packed_afterLoads (hpalette : t.palette = none)
    (h : ∀ size ∈ t.lastSize? data loads, t.format.paletteLength ≤ size) :
    packed (t.afterLoads data loads) (data.drop t.dataOffset.toNat) =
      packed t (data.drop t.dataOffset.toNat) := by
  refine (packed_withPalette t _ _).trans ?_
  cases hplain : packed t (data.drop t.dataOffset.toNat) with
  | error e => rfl
  | ok plain =>
    obtain ⟨-, hlong, rfl⟩ := packed_eq_ok_iff.mp hplain
    have hpixels : (List.range t.texelCount).map
        ((t.afterLoads data loads).pixelAt (data.drop t.dataOffset.toNat)) =
          (List.range t.texelCount).map (t.pixelAt (data.drop t.dataOffset.toNat)) := by
      refine List.map_congr_left fun n _ => ?_
      rw [Texture.pixelAt_afterLoads hpalette ((Nat.le_add_right _ _).trans hlong),
        if_neg (Texture.not_hidden h n)]
    rw [← hpixels]
    rfl

theorem hides_of_packed (hpalette : t.palette = none) {image plain : PixelBuffer}
    (h : packed (t.afterLoads data loads) (data.drop t.dataOffset.toNat) = .ok image)
    (hplain : packed t (data.drop t.dataOffset.toNat) = .ok plain) :
    image.Hides (t.Hidden data loads) plain := by
  obtain ⟨-, hlong, -⟩ := packed_eq_ok_iff.mp hplain
  have hpixel (n : Nat) : image.pixel? n = if n < t.texelCount then
      some (if t.Hidden data loads n then .transparent
        else t.pixelAt (data.drop t.dataOffset.toNat) n) else none := by
    rw [← Texture.pixelAt_afterLoads hpalette ((Nat.le_add_right _ _).trans hlong)]
    exact pixel?_of_packed h n
  have hshows := shows_of_packed h
  have hshows' := shows_of_packed hplain
  refine ⟨hshows.width_eq.trans hshows'.width_eq.symm,
    hshows.height_eq.trans hshows'.height_eq.symm,
    hshows.length_eq.trans hshows'.length_eq.symm, fun n hn => ?_, fun n hlt hn => ?_⟩
  · rw [hpixel, if_neg hn, pixel?_of_packed hplain]
  · rw [hshows'.width_eq, hshows'.height_eq, ← Texture.texelCount] at hlt
    rw [hpixel, if_pos hlt, if_pos hn]

end Codec

namespace TextureTable

variable {table : TextureTable} {data : Bytes} {index : Nat} {t : Texture}

/-- Loads of palettes for a texture that has no palette and no image. They do not change whether
the texture is refused, and not what is reported then. An image has the pixels that it has without
any load, but for indices behind the end of the last palette within the data, which show nothing;
so it is the same image where that palette is as long as the embedded one, and where no load is
within the data, and in all formats without an embedded palette. -/
theorem palette_loads_only_hide (ht : table.textures[index]? = some t) (hpalette : t.palette = none)
    (hpixels : t.pixels = none) (hnew : table.materialOf? index = none)
    (loads : List PaletteLoad) (wrapS wrapT : WrapMode) :
    let loaded := table.loadPalettes data index loads
    (loaded.materialFor Codec.packed data index wrapS wrapT).2 =
      (table.materialFor Codec.packed data index wrapS wrapT).2 ∧
    ((∃ image, loaded.imageFor? Codec.packed data index wrapS wrapT = some image) ↔
      ∃ plain, table.imageFor? Codec.packed data index wrapS wrapT = some plain) ∧
    (∀ image plain, loaded.imageFor? Codec.packed data index wrapS wrapT = some image →
      table.imageFor? Codec.packed data index wrapS wrapT = some plain →
      image.Hides (t.Hidden data loads) plain) ∧
    ((∀ size ∈ t.lastSize? data loads, t.format.paletteLength ≤ size) →
      loaded.imageFor? Codec.packed data index wrapS wrapT =
        table.imageFor? Codec.packed data index wrapS wrapT) := by
  intro loaded
  have hkeeps : table.Keeps loaded := table.keeps_loadPalettes data index loads
  have ht' : loaded.textures[index]? = some (t.afterLoads data loads) :=
    getElem?_loadPalettes ht loads
  have hnew' : loaded.materialOf? index = none := by
    rw [materialOf?, hkeeps.materials_eq]
    exact hnew
  obtain ⟨other, hresult⟩ : ∃ other, Codec.packed (t.afterLoads data loads)
      (data.drop t.dataOffset.toNat) = (Codec.packed t (data.drop t.dataOffset.toNat)).map
        fun _ => other := ⟨_, Codec.packed_withPalette t _ _⟩
  rw [imageFor?_of_new ht hpixels hnew, imageFor?_of_new ht' hpixels hnew',
    Texture.afterLoads_dataOffset]
  refine ⟨?_, ?_, fun image plain himage hplain => ?_, fun hsizes => ?_⟩
  · have hrefusal : (loaded.paint Codec.packed data index (t.afterLoads data loads)).2 =
        (table.paint Codec.packed data index t).2 := by
      rw [paint_journal (t := t.afterLoads data loads) hpixels, paint_journal hpixels,
        Texture.afterLoads_dataOffset, hresult]
      cases Codec.packed t (data.drop t.dataOffset.toNat) <;> rfl
    rw [materialFor_of_new _ _ _ ht hnew, materialFor_of_new _ _ _ ht' hnew', hrefusal]
    simp only [paint_materials, hkeeps.materials_eq]
  · rw [hresult]
    cases Codec.packed t (data.drop t.dataOffset.toNat) <;> simp [Except.map, Except.toOption]
  · exact Codec.hides_of_packed hpalette (VertexWindow.toOption_eq_some_iff.mp himage)
      (VertexWindow.toOption_eq_some_iff.mp hplain)
  · rw [Codec.packed_afterLoads hpalette hsizes]

/-- A texture of two texels, which are the indices 1 and 15, behind a palette that is all white. -/
def samplePaletteData : Bytes :=
  List.replicate 32 0xFF ++ [0x1F]

def samplePaletteTable : TextureTable :=
  ⟨#[{ dataOffset := 0, format := .ci4, width := 2, height := 1 }], #[.null], #[]⟩

/-- Two loads that reach beyond the data, and between them one of two colours. -/
def samplePaletteLoads : List PaletteLoad :=
  [⟨4, 34⟩, ⟨5, 4⟩, ⟨6, 512⟩]

theorem palette_loads_only_hide_short : ∃ image plain,
    (samplePaletteTable.loadPalettes samplePaletteData 0 samplePaletteLoads).imageFor?
      Codec.packed samplePaletteData 0 .clamp .clamp = some image ∧
    samplePaletteTable.imageFor? Codec.packed samplePaletteData 0 .clamp .clamp = some plain ∧
    image.pixel? 0 = plain.pixel? 0 ∧ plain.pixel? 1 = some ⟨255, 255, 255, 255⟩ ∧
    image.pixel? 1 = some .transparent := by
  have hnew : samplePaletteTable.materialOf? 0 = none := by
    simp [samplePaletteTable, materialOf?, Material.null]
  obtain ⟨-, hiff, hhides, -⟩ := @palette_loads_only_hide samplePaletteTable samplePaletteData 0 _
    rfl rfl rfl hnew samplePaletteLoads .clamp .clamp
  have hplain : samplePaletteTable.imageFor? Codec.packed samplePaletteData 0 .clamp .clamp =
      some ⟨2, 1, List.replicate 8 255⟩ := by
    rw [imageFor?_of_new rfl rfl hnew]
    rfl
  obtain ⟨image, himage⟩ := hiff.mpr ⟨_, hplain⟩
  have hhidden := hhides image _ himage hplain
  exact ⟨image, _, himage, hplain, hhidden.shown 0 (by decide), rfl,
    hhidden.transparent 1 (by decide) (by decide)⟩

end TextureTable

end DisplayList

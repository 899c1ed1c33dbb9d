import DisplayList.Proofs.Textures

/-!
# Textures by their addresses

A texture is looked up by the address of its first byte or of its first texel, and the first
one that answers is taken. Where the first texel is depends on the format, which a tile record
can replace: a texture may then answer to an address that belongs to a later one, and no
longer to its own. Without that, textures that lie apart are all found.
-/
namespace DisplayList

namespace TexelFormat

theorem paletteLength_le (f : TexelFormat) : f.paletteLength ≤ 512 := by
  cases f <;> decide

end TexelFormat

namespace Texture

variable {t u : Texture} {address : UInt32}

theorem answersTo_iff : t.answersTo address = true ↔
    t.dataOffset = address ∨ t.texelOffset = address := by
  simp [answersTo_eq]

/-- Textures that start at one place have their texels at one place exactly if their palettes are
of one length. -/
theorem texelOffset_eq_iff (h : u.dataOffset = t.dataOffset) :
    u.texelOffset = t.texelOffset ↔ u.format.paletteLength = t.format.paletteLength := by
  have hu := u.format.paletteLength_le
  have ht := t.format.paletteLength_le
  rw [texelOffset_eq, texelOffset_eq, h, UInt32.add_right_inj, ← UInt32.toNat_inj,
    UInt32.toNat_ofNat', UInt32.toNat_ofNat']
  omega

/-- The bytes that a texture takes, its palette first. -/
def extent (t : Texture) : Nat :=
  t.format.paletteLength + t.texelLength

/-- Where the bytes of a texture end. -/
def ending (t : Texture) : Nat :=
  t.dataOffset.toNat + t.extent

/-- An address that a texture with texels answers to is one of its bytes. -/
theorem within_of_answersTo (hlength : 0 < t.texelLength) (hreach : t.ending ≤ 2 ^ 24)
    (h : t.answersTo address = true) :
    t.dataOffset.toNat ≤ address.toNat ∧ address.toNat < t.ending := by
  unfold ending extent at *
  rcases answersTo_iff.mp h with rfl | rfl
  · omega
  · rw [texelOffset_eq, UInt32.toNat_add, UInt32.toNat_ofNat']
    omega

end Texture

namespace TextureTable

/-- The texture found is the first one that answers. -/
theorem find?_eq_some_iff {table : TextureTable} {address : UInt32} {i : Nat} {u : Texture}
    (hu : table.textures[i]? = some u) : table.find? address = some i ↔
      u.answersTo address = true ∧
        ∀ (j : Nat) w, j < i → table.textures[j]? = some w → ¬ w.answersTo address = true := by
  obtain ⟨hi, rfl⟩ := Array.getElem?_eq_some_iff.mp hu
  rw [find?_eq, Array.findIdx?_eq_some_iff_getElem]
  constructor
  · intro h
    obtain ⟨_, hanswers, hearlier⟩ := h
    refine ⟨hanswers, fun j w hj hw => ?_⟩
    obtain ⟨_, rfl⟩ := Array.getElem?_eq_some_iff.mp hw
    exact hearlier j hj
  · intro h
    exact ⟨hi, h.1, fun j hj => h.2 j _ hj (Array.getElem?_eq_getElem (by omega))⟩

end TextureTable

namespace Decoder

variable {m : Model} {codec : Codec} {d : Decoder} {n position i : Nat} {c : Command}

/-- A command makes the `i`-th texture the one to draw with and reports nothing. -/
def Selects (m : Model) (codec : Codec) (d : Decoder) (position : Nat) (c : Command) (i : Nat) :
    Prop :=
  (d.step m codec position c).2.state.texture = i ∧
    (d.step m codec position c).2.diagnostics = d.diagnostics

theorem selects_iff (ho : c.opcode? = some .bindTexture) (hi : i < d.table.textures.size) :
    Selects m codec d position c i ↔ d.table.find? c.address = some i := by
  have hstep : (d.step m codec position c).2 = d.bindTexture m position c := by
    simp only [step_eq, ho]
  have htexture := (step_effect m codec d position c).texture_eq
  rw [if_pos ho] at htexture
  have hdiagnostics : (d.step m codec position c).2.diagnostics =
      d.diagnostics ++ (d.table.select position c).2.2.diagnostics := by
    rw [hstep]
    simp [Decoder.bindTexture_eq, diagnostics]
  rw [Selects, htexture, hdiagnostics, TextureTable.select_eq]
  cases d.table.find? c.address with
  | none =>
    simp only [Option.getD_none, reduceCtorEq, iff_false, not_and]
    omega
  | some j => simp

end Decoder

namespace Model

/-- Textures each of which takes some of the texture data, within the reach of an address, and
shares none of it with another. -/
structure Separated (m : Model) : Prop where
  nonempty : ∀ t ∈ m.textures.toList, 0 < t.extent
  inside : ∀ t ∈ m.textures.toList, t.ending ≤ m.textureData.length
  reach : ∀ t ∈ m.textures.toList, t.ending ≤ 2 ^ 24
  apart : m.textures.toList.Pairwise fun t u =>
    t.ending ≤ u.dataOffset.toNat ∨ u.ending ≤ t.dataOffset.toNat

variable {m : Model} {i j : Nat} {s t : Texture} {address : UInt32}

theorem mem_textures (ht : m.textures[i]? = some t) : t ∈ m.textures.toList :=
  List.mem_of_getElem? (by rwa [Array.getElem?_toList])

/-- Of two separated textures with texels only one answers to an address. -/
theorem Separated.not_answersTo (h : m.Separated) (hji : j < i) (hs : m.textures[j]? = some s)
    (ht : m.textures[i]? = some t) (hslen : 0 < s.texelLength) (htlen : 0 < t.texelLength)
    (hanswers : t.answersTo address = true) : ¬ s.answersTo address = true := by
  intro hother
  obtain ⟨hsle, hslt⟩ := Texture.within_of_answersTo hslen (h.reach s (mem_textures hs)) hother
  obtain ⟨htle, htlt⟩ := Texture.within_of_answersTo htlen (h.reach t (mem_textures ht)) hanswers
  obtain ⟨hj, rfl⟩ := Array.getElem?_eq_some_iff.mp hs
  obtain ⟨hi, rfl⟩ := Array.getElem?_eq_some_iff.mp ht
  have hapart :=
    List.pairwise_iff_getElem.mp h.apart j i (by simpa using hj) (by simpa using hi) hji
  simp only [Array.getElem_toList] at hapart
  omega

end Model

namespace Decoder

open Texture TextureTable

variable {m : Model} {codec : Codec} {d : Decoder} {n position i : Nat} {c : Command} {t : Texture}

/-- A texture of the model is still in its place in every reachable decoder. -/
theorem Reached.exists_became (h : Reached m codec n d) (ht : m.textures[i]? = some t) :
    ∃ u, d.table.textures[i]? = some u ∧ Became t u :=
  h.revised persists_became scales_became i t ht

/-- A texture before one of the model is one of the model, too. -/
theorem Reached.exists_origin (h : Reached m codec n d) (ht : m.textures[i]? = some t) {j : Nat}
    {w : Texture} (hji : j < i) (hw : d.table.textures[j]? = some w) :
    ∃ s, m.textures[j]? = some s ∧ Became s w := by
  have hlt := (Array.getElem?_eq_some_iff.mp ht).1
  obtain ⟨s, hs⟩ : ∃ s, m.textures[j]? = some s := ⟨_, Array.getElem?_eq_getElem (by omega)⟩
  obtain ⟨w', hw', hsw⟩ := h.exists_became hs
  obtain rfl : w = w' := Option.some.inj (hw.symm.trans hw')
  exact ⟨s, hs, hsw⟩

/-- A texture that keeps the length of its palette answers to the addresses that it had. -/
theorem answersTo_congr {u : Texture} {address : UInt32} (h : Became t u)
    (hlength : u.format.paletteLength = t.format.paletteLength) :
    u.answersTo address = true ↔ t.answersTo address = true := by
  rw [answersTo_iff, answersTo_iff, h.dataOffset_eq,
    (texelOffset_eq_iff h.dataOffset_eq).mpr hlength]

section Bind

variable (hd : Reached m codec n d) (ht : m.textures[i]? = some t)
  (ho : c.opcode? = some .bindTexture)

include hd ht ho

/-- What stands in the way of a texture that is bound by an address of its own: that its first
texel has moved away from there, or that an earlier texture answers. -/
theorem Reached.selects_iff {u : Texture} (hu : d.table.textures[i]? = some u)
    (haddress : c.address = t.dataOffset ∨ c.address = t.texelOffset) :
    Selects m codec d position c i ↔
      (c.address = t.dataOffset ∨ u.format.paletteLength = t.format.paletteLength) ∧
        ∀ (j : Nat) w, j < i → d.table.textures[j]? = some w →
          w.dataOffset ≠ c.address ∧ w.texelOffset ≠ c.address := by
  obtain ⟨u', hu', hbecame⟩ := hd.exists_became ht
  obtain rfl : u = u' := Option.some.inj (hu.symm.trans hu')
  have hanswers : u.answersTo c.address = true ↔
      c.address = t.dataOffset ∨ u.format.paletteLength = t.format.paletteLength := by
    rw [answersTo_iff, hbecame.dataOffset_eq, ← texelOffset_eq_iff hbecame.dataOffset_eq]
    rcases haddress with h | h
    · simp [h]
    · rw [h]
      constructor <;> exact Or.imp Eq.symm id
  rw [Decoder.selects_iff ho (Array.getElem?_eq_some_iff.mp hu).1, find?_eq_some_iff hu, hanswers]
  simp only [answersTo_iff, not_or, ne_eq]

/-- Separated textures with texels are found while their palettes keep their lengths. -/
theorem Reached.selects_of_kept (hsep : m.Separated)
    (haddress : c.address = t.dataOffset ∨ c.address = t.texelOffset)
    (hkept : ∀ (j : Nat) s w, j ≤ i → m.textures[j]? = some s →
      d.table.textures[j]? = some w →
      0 < s.texelLength ∧ (w.tile = none ∨ w.format.paletteLength = s.format.paletteLength)) :
    Selects m codec d position c i := by
  have hlength {j : Nat} {s w : Texture} (hji : j ≤ i) (hs : m.textures[j]? = some s)
      (hw : d.table.textures[j]? = some w) (hsw : Became s w) :
      w.format.paletteLength = s.format.paletteLength := by
    rcases (hkept j s w hji hs hw).2 with htile | hsame
    · rw [(hsw.untiled htile).2]
    · exact hsame
  obtain ⟨u, hu, hbecame⟩ := hd.exists_became ht
  rw [hd.selects_iff ht ho hu haddress]
  refine ⟨.inr (hlength (Nat.le_refl i) ht hu hbecame), fun j w hji hw => ?_⟩
  obtain ⟨s, hs, hsw⟩ := hd.exists_origin ht hji hw
  have hle := Nat.le_of_lt hji
  have hnot := hsep.not_answersTo hji hs ht (hkept j s w hle hs hw).1
    (hkept i t u (Nat.le_refl i) ht hu).1
    (answersTo_iff.mpr (haddress.imp Eq.symm Eq.symm))
  rw [← answersTo_congr hsw (hlength hle hs hw hsw), answersTo_iff, not_or] at hnot
  exact hnot

/-- The first byte of a texture is found if no earlier texture can have its first texel there,
whatever its format. -/
theorem Reached.selects_of_clear (haddress : c.address = t.dataOffset)
    (hclear : ∀ (j : Nat) s (f : TexelFormat), j < i → m.textures[j]? = some s →
      s.dataOffset + UInt32.ofNat f.paletteLength ≠ c.address) :
    Selects m codec d position c i := by
  obtain ⟨u, hu, -⟩ := hd.exists_became ht
  rw [hd.selects_iff ht ho hu (.inl haddress)]
  refine ⟨.inl haddress, fun j w hji hw => ?_⟩
  obtain ⟨s, hs, hsw⟩ := hd.exists_origin ht hji hw
  -- a format without a palette has its texels where the data starts
  have hfirst := hclear j s .rgba16 hji hs
  rw [texelOffset_eq, hsw.dataOffset_eq]
  exact ⟨by simpa [TexelFormat.paletteLength] using hfirst, hclear j s w.format hji hs⟩

end Bind

/-- A command that binds an address of a texture selects it, unless tile records have moved the
first texel of this texture away from that address or that of an earlier one onto it. Separated
textures whose palettes have kept their lengths are all found, and so is a first byte onto which
no earlier texture can be moved. -/
theorem selects_own_address (m : Model) (codec : Codec) (hsep : m.Separated) (n : Nat)
    (d : Decoder) (hd : Reached m codec n d) (i : Nat) (t : Texture)
    (ht : m.textures[i]? = some t) (position : Nat) (c : Command)
    (ho : c.opcode? = some .bindTexture)
    (haddress : c.address = t.dataOffset ∨ c.address = t.texelOffset) :
    ∃ u, d.table.textures[i]? = some u ∧ Became t u ∧
      (Selects m codec d position c i ↔
        (c.address = t.dataOffset ∨ u.format.paletteLength = t.format.paletteLength) ∧
        ∀ (j : Nat) w, j < i → d.table.textures[j]? = some w →
          w.dataOffset ≠ c.address ∧ w.texelOffset ≠ c.address) ∧
      ((∀ (j : Nat) s w, j ≤ i → m.textures[j]? = some s → d.table.textures[j]? = some w →
          0 < s.texelLength ∧
            (w.tile = none ∨ w.format.paletteLength = s.format.paletteLength)) →
        Selects m codec d position c i) ∧
      (c.address = t.dataOffset →
        (∀ (j : Nat) s (f : TexelFormat), j < i → m.textures[j]? = some s →
          s.dataOffset + UInt32.ofNat f.paletteLength ≠ c.address) →
        Selects m codec d position c i) := by
  obtain ⟨u, hu, hbecame⟩ := hd.exists_became ht
  exact ⟨u, hu, hbecame, hd.selects_iff ht ho hu haddress,
    hd.selects_of_kept ht ho hsep haddress, hd.selects_of_clear ht ho⟩

/-- Two textures, the second where the first has its texels once a tile gives it a palette. -/
def neighbours (commands : Array Command) : Model where
  textures := #[{ dataOffset := 0, format := .rgba16, width := 4, height := 4 },
    { dataOffset := 32, format := .ci4, width := 1, height := 1 }]
  textureData := .replicate 65 0
  commands := commands

theorem separated_neighbours (commands : Array Command) : (neighbours commands).Separated :=
  have h : (neighbours #[]).Separated := ⟨by decide, by decide, by decide, by decide⟩
  ⟨h.nonempty, h.inside, h.reach, h.apart⟩

/-- Gives the first texture a palette, and then binds the second one. -/
def sampleOverlap : Model :=
  neighbours #[.ofFields 245 0x40 0 0 0, .ofFields 253 0 0 0 32]

/-- Binds the second texture by its first texel and takes its palette away, twice. -/
def sampleShift : Model :=
  neighbours #[.ofFields 253 0 0 0 64, .ofFields 245 0x10 0 0 0, .ofFields 253 0 0 0 64]

/-- A tile record can hide a texture behind an earlier one, and it can make the first texel of a
texture unknown. -/
theorem not_selects_tiled :
    (sampleOverlap.Separated ∧ Reached sampleOverlap .packed 1 (before sampleOverlap .packed 1) ∧
      (∃ t, sampleOverlap.textures[1]? = some t ∧
        (Command.ofFields 253 0 0 0 32).address = t.dataOffset) ∧
      ¬ Selects sampleOverlap .packed (before sampleOverlap .packed 1) 1
        (.ofFields 253 0 0 0 32) 1) ∧
    (sampleShift.Separated ∧ Reached sampleShift .packed 2 (before sampleShift .packed 2) ∧
      (∃ t, sampleShift.textures[1]? = some t ∧
        (Command.ofFields 253 0 0 0 64).address = t.texelOffset) ∧
      ¬ Selects sampleShift .packed (before sampleShift .packed 2) 2
        (.ofFields 253 0 0 0 64) 1) :=
  ⟨⟨separated_neighbours _, Reached.start.step 0 _, ⟨_, rfl, by decide⟩,
      fun h => absurd h.1 (by decide +kernel)⟩,
    ⟨separated_neighbours _, (Reached.start.step 0 _).step 1 _, ⟨_, rfl, by decide⟩,
      fun h => absurd h.1 (by decide +kernel)⟩⟩

theorem selects_own_address_tiled :
    sampleOverlap.Separated ∧ Reached sampleOverlap .packed 1 (before sampleOverlap .packed 1) ∧
    ∃ t, sampleOverlap.textures[1]? = some t ∧
    (Command.ofFields 253 0 0 0 64).opcode? = some .bindTexture ∧
    (Command.ofFields 253 0 0 0 64).address = t.texelOffset ∧
    ∃ u, (before sampleOverlap .packed 1).table.textures[1]? = some u ∧ Became t u ∧
      (Selects sampleOverlap .packed (before sampleOverlap .packed 1) 1 (.ofFields 253 0 0 0 64) 1 ↔
        ((Command.ofFields 253 0 0 0 64).address = t.dataOffset ∨
          u.format.paletteLength = t.format.paletteLength) ∧
        ∀ (j : Nat) w, j < 1 → (before sampleOverlap .packed 1).table.textures[j]? = some w →
          w.dataOffset ≠ (Command.ofFields 253 0 0 0 64).address ∧
          w.texelOffset ≠ (Command.ofFields 253 0 0 0 64).address) :=
  have hsep := separated_neighbours #[.ofFields 245 0x40 0 0 0, .ofFields 253 0 0 0 32]
  have hreached := Reached.start.step 0 (.ofFields 245 0x40 0 0 0)
  have ⟨u, hu, hbecame, hiff, _⟩ := selects_own_address sampleOverlap .packed hsep 1 _ hreached 1
    _ rfl 1 (.ofFields 253 0 0 0 64) rfl (.inr (by decide))
  ⟨hsep, hreached, _, rfl, rfl, by decide, u, hu, hbecame, hiff⟩

end Decoder

end DisplayList

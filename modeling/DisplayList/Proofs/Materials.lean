import DisplayList.Proofs.FirstUses

/-!
# Materials follow first uses

Materials, requests and refusals are all read off one list, that of the first uses of
textures: each command either leaves it alone or adds one use at its end. Batches
find their materials through it.
-/
namespace DisplayList.Decoder

variable {m : Model} {codec : Codec} {p t : Nat} {uses : List Use} {u : Use}

/-- The batch opened at `q` has the material of the first use of `t`, as far as `p`. -/
def Tagged (m : Model) (codec : Codec) (p : Nat) (uses : List Use) (q t : Nat) : Prop :=
  ∃ i u, uses[i]? = some u ∧ u.texture = t ∧
    (before m codec p).recording.tags[(before m codec q).recording.batches.size]? = some (i + 1)

theorem Tagged.append {q : Nat} (h : Tagged m codec p uses q t) (more : List Use) :
    Tagged m codec (p + 1) (uses ++ more) q t := by
  obtain ⟨i, u, hi, hu, htag⟩ := h
  refine ⟨i, u, ?_, hu, tag_mono (Nat.le_add_right p 1) htag⟩
  rw [List.getElem?_append_left (List.getElem?_eq_some_iff.mp hi).1, hi]

/-- The list of first uses says what the table holds, what was asked and refused, and which
materials batches have. -/
structure Catalogued (m : Model) (codec : Codec) (p : Nat) (uses : List Use) : Prop where
  firsts : FirstUses m codec p uses
  materials_eq : (before m codec p).table.materials.toList =
    .null :: uses.map (Use.material m codec)
  requests_eq : (before m codec p).table.requests.toList = uses.filterMap (Use.request? m codec)
  refusals_eq : Diagnostic.refusals (before m codec p).diagnostics =
    uses.filterMap (Use.refusal? m codec)
  present : ∀ u ∈ uses, ∃ image, (before m codec p).table.pixels? u.texture = some image
  painted : ∀ u ∈ uses, ∀ q, u.request? m codec = some q →
    (before m codec p).table.pixels? u.texture = some (codec q.texture q.raw).toOption
  tagged : ∀ q t, q < p → Takes m codec q t → Tagged m codec p uses q t

namespace Catalogued

theorem start : Catalogued m codec 0 [] where
  firsts := .start
  materials_eq := rfl
  requests_eq := rfl
  refusals_eq := rfl
  present := by simp
  painted := by simp
  tagged := by simp

theorem size_materials (h : Catalogued m codec p uses) :
    (before m codec p).table.materials.size = uses.length + 1 := by
  rw [← Array.length_toList, h.materials_eq]
  simp

/-- A texture has exactly one material, at the place of its first use. -/
theorem texture_eq_iff (h : Catalogued m codec p uses) {i k : Nat} (hi : uses[i]? = some u) :
    ((before m codec p).table.materials[k]?).bind Material.texture = some u.texture ↔
      k = i + 1 := by
  rw [← Array.getElem?_toList, h.materials_eq]
  cases k with
  | zero => simp [Material.null]
  | succ k =>
    obtain ⟨hlt, hu⟩ := List.getElem?_eq_some_iff.mp hi
    constructor
    · intro hk
      obtain ⟨v, hv, htexture⟩ : ∃ v, uses[k]? = some v ∧ v.texture = u.texture := by
        simpa [Option.bind_eq_some_iff, Use.material, Material.forTexture] using hk
      have hmap : (uses.map Use.texture)[i]? = (uses.map Use.texture)[k]? := by
        rw [List.getElem?_map, List.getElem?_map, hi, hv, Option.map_some, Option.map_some,
          htexture]
      have hik := (List.getElem?_inj (by simpa using hlt) h.firsts.nodup).mp hmap
      omega
    · intro hk
      obtain rfl : k = i := by omega
      simp [hi, Use.material, Material.forTexture]

/-- The material of a texture is found at the place of its first use. -/
theorem materialOf?_eq (h : Catalogued m codec p uses) (t : Nat) :
    (before m codec p).table.materialOf? t =
      (uses.findIdx? fun u => u.texture = t).map (· + 1) := by
  have hnull : decide (Material.null.texture = some t) = false := by simp [Material.null]
  have huse : (fun a : Material => decide (a.texture = some t)) ∘ Use.material m codec =
      fun u => decide (u.texture = t) := by
    funext u
    simp [Use.material, Material.forTexture]
  have hlist : (before m codec p).table.materials =
      (Material.null :: uses.map (Use.material m codec)).toArray := by
    rw [← h.materials_eq, Array.toArray_toList]
  rw [TextureTable.materialOf?, hlist, List.findIdx?_toArray, List.findIdx?_cons, hnull,
    List.findIdx?_map, huse]
  rfl

/-- A command that makes no material leaves the list as it is. -/
theorem keep (h : Catalogued m codec p uses)
    (hkeeps : (before m codec p).table.Keeps (before m codec (p + 1)).table)
    (hrefusals : Diagnostic.refusals (before m codec (p + 1)).diagnostics =
      Diagnostic.refusals (before m codec p).diagnostics)
    (hnofirst : ∀ t, ¬ (Use.mk p t).IsFirst m codec)
    (htagged : ∀ t, Takes m codec p t → Tagged m codec (p + 1) uses p t) :
    Catalogued m codec (p + 1) uses where
  firsts := h.firsts.skip hnofirst
  materials_eq := by rw [hkeeps.materials_eq, h.materials_eq]
  requests_eq := by rw [hkeeps.requests_eq, h.requests_eq]
  refusals_eq := by rw [hrefusals, h.refusals_eq]
  present u hu := by
    obtain ⟨image, himage⟩ := h.present u hu
    exact ⟨image, hkeeps.pixels _ _ himage⟩
  painted u hu q hq := hkeeps.pixels _ _ (h.painted u hu q hq)
  tagged q t hq ht := by
    rcases Nat.lt_succ_iff_lt_or_eq.mp hq with hq | rfl
    · simpa using (h.tagged q t hq ht).append []
    · exact htagged t ht

/-- A load that takes a texture which has its material. -/
theorem again (h : Catalogued m codec p uses) (ht : Takes m codec p t) {i : Nat}
    (hi : uses.findIdx? (fun u => u.texture = t) = some i) :
    Catalogued m codec (p + 1) uses := by
  obtain ⟨hlt, htexture, -⟩ := List.findIdx?_eq_some_iff_getElem.mp hi
  have htexture' : uses[i].texture = t := by simpa using htexture
  have hfound : (before m codec p).table.materialOf? t = some (i + 1) := by
    rw [h.materialOf?_eq, hi]
    rfl
  have hmaterial := ht.takeMaterial_of_some hfound
  apply h.keep
  · rw [ht.table_succ, hmaterial]
    exact .refl _
  · rw [ht.refusals_succ, hmaterial]
    simp
  · intro t' ht'
    obtain rfl : t = t' := ht.unique ht'.1
    obtain ⟨hup, hutakes, -⟩ := (h.firsts.mem_iff uses[i]).mp (List.getElem_mem hlt)
    exact ht'.2 _ hup (htexture' ▸ hutakes)
  · intro t' ht'
    obtain rfl : t = t' := ht.unique ht'
    have htag := tag_of_opens codec (Nat.lt_succ_self p) ht.load ht.due
    rw [hmaterial] at htag
    exact ⟨i, uses[i], List.getElem?_eq_getElem hlt, htexture', htag⟩

/-- A load that takes a texture for the first time adds that use to the list. -/
theorem first (h : Catalogued m codec p uses) (ht : Takes m codec p t)
    (hi : uses.findIdx? (fun u => u.texture = t) = none) :
    Catalogued m codec (p + 1) (uses ++ [⟨p, t⟩]) := by
  have hfresh : ∀ u ∈ uses, u.texture ≠ t := by simpa using hi
  have hfirst : (Use.mk p t).IsFirst m codec := by
    refine ⟨ht, fun q hq hqt => ?_⟩
    obtain ⟨u, hu, hut⟩ := h.firsts.mem_of_takes hq hqt
    exact hfresh u hu hut
  have hnone : (before m codec p).table.materialOf? t = none := by
    rw [h.materialOf?_eq, hi]
    rfl
  obtain ⟨hmaterials, hrequests, hrefusals, image, hpixels, hanswer⟩ := ht.made hnone
  have hconcat {α : Type} (f : Use → Option α) (u : Use) :
      (uses ++ [u]).filterMap f = uses.filterMap f ++ (f u).toList := by
    cases hf : f u <;> simp [hf]
  refine ⟨h.firsts.snoc hfirst, ?_, ?_, ?_, fun u hu => ?_, fun u hu q hq => ?_,
    fun q t' hq ht' => ?_⟩
  · rw [hmaterials, h.materials_eq]
    simp
  · rw [hrequests, h.requests_eq, hconcat]
  · rw [hrefusals, h.refusals_eq, hconcat]
  · rw [hpixels]
    rcases List.mem_append.mp hu with hu | hu
    · rw [if_neg (hfresh u hu)]
      exact h.present u hu
    · rw [List.mem_singleton.mp hu, if_pos rfl]
      exact ⟨image, rfl⟩
  · rw [hpixels]
    rcases List.mem_append.mp hu with hu | hu
    · rw [if_neg (hfresh u hu), h.painted u hu q hq]
    · obtain rfl : u = ⟨p, t⟩ := List.mem_singleton.mp hu
      rw [if_pos rfl, hanswer q hq]
  · rcases Nat.lt_succ_iff_lt_or_eq.mp hq with hq | rfl
    · exact (h.tagged q t' hq ht').append _
    · obtain rfl : t = t' := ht.unique ht'
      obtain ⟨texture, htexture⟩ := ht.exists_texture
      have htag := tag_of_opens codec (Nat.lt_succ_self q) ht.load ht.due
      rw [ht.takeMaterial_of_new htexture hnone] at htag
      exact ⟨uses.length, ⟨q, t⟩, by simp, rfl, by rw [htag, Option.getD_some, h.size_materials]⟩

end Catalogued

/-- Every run has a list of first uses. -/
theorem exists_catalogued (m : Model) (codec : Codec) (p : Nat) :
    ∃ uses, Catalogued m codec p uses := by
  induction p with
  | zero => exact ⟨[], .start⟩
  | succ p ih =>
    obtain ⟨uses, h⟩ := ih
    by_cases htakes : ∃ t, Takes m codec p t
    · obtain ⟨t, ht⟩ := htakes
      cases hi : uses.findIdx? (fun u => u.texture = t) with
      | none => exact ⟨_, h.first ht hi⟩
      | some i => exact ⟨_, h.again ht hi⟩
    · have hno : ∀ t, ¬ Takes m codec p t := fun t ht => htakes ⟨t, ht⟩
      obtain ⟨hkeeps, hrefusals⟩ := keeps_succ hno
      exact ⟨uses, h.keep hkeeps hrefusals (fun t ht => hno t ht.1)
        fun t ht => absurd ht (hno t)⟩

/-- A batch that was opened without taking a texture has none. -/
theorem tag_of_not_takes {n : Nat} (hpn : p < n) (hopens : Opens m codec p)
    (hno : ∀ t, ¬ Takes m codec p t) :
    (before m codec n).recording.tags[(before m codec p).recording.batches.size]? =
      some Material.nullIndex := by
  obtain ⟨hl, b, hb⟩ := opens_iff_due.mp hopens
  rw [tag_of_opens codec hpn hl hb]
  cases b with
  | null => rfl
  | texture =>
    rw [takeMaterial_of_not_takes hl hb hno]
    rfl

namespace Catalogued

/-- Every batch has one of the materials. -/
theorem tag_lt (h : Catalogued m codec p uses) {tag : Nat}
    (htag : tag ∈ (before m codec p).recording.tags) :
    tag < (before m codec p).table.materials.size := by
  obtain ⟨k, hk, rfl⟩ := List.getElem_of_mem htag
  obtain ⟨q, hq, hopens, hsize⟩ := exists_opens_of_lt m codec (p := p) (k := k)
    (by simpa [Recording.tags] using hk)
  rw [h.size_materials]
  by_cases htakes : ∃ t, Takes m codec q t
  · obtain ⟨t, ht⟩ := htakes
    obtain ⟨i, u, hi, -, hget⟩ := h.tagged q t hq ht
    have hlt := (List.getElem?_eq_some_iff.mp hi).1
    rw [hsize, List.getElem?_eq_getElem hk] at hget
    have htag := Option.some.inj hget
    omega
  · have hget := tag_of_not_takes hq hopens fun t ht => htakes ⟨t, ht⟩
    rw [hsize, List.getElem?_eq_getElem hk] at hget
    have htag := Option.some.inj hget
    simp only [Material.nullIndex] at htag
    omega

end Catalogued

/-- What tags say of batches. -/
theorem exists_batch_of_tag {d : Decoder} {k tag : Nat} (h : d.recording.tags[k]? = some tag) :
    ∃ b, d.recording.batches[k]? = some b ∧ b.material = tag := by
  simpa [Recording.tags] using h

end DisplayList.Decoder

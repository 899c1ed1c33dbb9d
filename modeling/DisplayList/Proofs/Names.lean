import DisplayList.Export
import DisplayList.Proofs.NameReading
import DisplayList.Proofs.ObjFaces

/-!
# Names that differ

Materials and images are named after the positions of their textures, in decimal digits with
zeros in front. The zeros do not count: a name says which texture it is for, however many digits
there are. A decoded scene has at most one material for a texture, so that no name in it stands
for two things. The files of a scene also differ in what stands after their last dot.
-/
namespace DisplayList

namespace Numeral

theorem toList_decimal (width n : Nat) : (decimal width n).toList =
    List.replicate (width - (toString n).length) '0' ++ Nat.toDigits 10 n := by
  simp [decimal, zeroFilled]

theorem ofDigitChars_decimal (width n : Nat) :
    Nat.ofDigitChars 10 (decimal width n).toList 0 = n := by
  rw [toList_decimal, Nat.ofDigitChars_append, Nat.ofDigitChars_replicate_zero, Nat.mul_zero,
    Nat.ofDigitChars_ten_toDigits]

theorem decimal_injective (width : Nat) : Function.Injective (decimal width) := by
  intro a b h
  calc a = Nat.ofDigitChars 10 (decimal width a).toList 0 := (ofDigitChars_decimal width a).symm
    _ = Nat.ofDigitChars 10 (decimal width b).toList 0 := by rw [h]
    _ = b := ofDigitChars_decimal width b

theorem not_mem_decimal {c : Char} (hc : ¬ isNumeral c) (width n : Nat) :
    c ∉ (decimal width n).toList := by
  have hzero : c ≠ '0' := fun h => hc (by rw [h]; rfl)
  have hdigits := (isNumber_toDigits n).not_mem hc
  simp [toList_decimal, hzero, hdigits]

end Numeral

/-! ### Names with an extension -/

namespace Path

theorem splitName_extension {stem extension : String} (hstem : stem ≠ "")
    (hdot : '.' ∉ extension.toList) :
    splitName (stem ++ "." ++ extension) = (stem, some extension) := by
  have hbackward : (stem ++ "." ++ extension).toList.reverse =
      extension.toList.reverse ++ '.' :: stem.toList.reverse := by
    simp
  have hall : ∀ c ∈ extension.toList.reverse, decide (c ≠ '.') = true := by
    intro c hc
    have hne : c ≠ '.' := by
      rintro rfl
      exact hdot (List.mem_reverse.mp hc)
    simpa using hne
  obtain ⟨c, rest, hreverse⟩ := List.exists_cons_of_ne_nil (l := stem.toList.reverse)
    (by simpa using hstem)
  simp only [splitName]
  rw [hbackward, List.dropWhile_append_of_pos hall, List.takeWhile_append_of_pos hall,
    List.dropWhile_cons_of_neg (by simp), List.takeWhile_cons_of_neg (by simp), hreverse]
  have hname : (c :: rest).reverse = stem.toList := by rw [← hreverse, List.reverse_reverse]
  simp only [hname, String.ofList_toList, List.append_nil, List.reverse_reverse]

theorem eq_of_splitName {name stem extension : String}
    (h : splitName name = (stem, some extension)) :
    name = stem ++ "." ++ extension ∧ stem ≠ "" := by
  simp only [splitName] at h
  split at h
  · rename_i dot c rest hdrop
    obtain ⟨rfl, hextension⟩ := Prod.mk.inj h
    obtain rfl := Option.some.inj hextension
    have hdot : dot = '.' := by
      have hhead := List.head?_dropWhile_not (fun c => decide (c ≠ '.')) name.toList.reverse
      rw [hdrop] at hhead
      simpa using hhead
    have hname : name.toList.reverse.takeWhile (fun c => decide (c ≠ '.')) ++
        name.toList.reverse.dropWhile (fun c => decide (c ≠ '.')) = name.toList.reverse :=
      List.takeWhile_append_dropWhile
    rw [hdrop, hdot] at hname
    have hreverse := congrArg List.reverse hname
    constructor
    · rw [← String.toList_inj]
      simpa using hreverse.symm
    · simp
  · cases h

end Path

/-! ### Materials -/

namespace Material

theorem forTexture_name_inj {t t' : Nat} {s s' r r' : WrapMode}
    (h : (forTexture t s r).name = (forTexture t' s' r').name) : t = t' := by
  have hlists := congrArg String.toList h
  simp only [forTexture, String.toList_append] at hlists
  exact Numeral.decimal_injective 4 (String.toList_inj.mp (List.append_cancel_left hlists))

theorem forTexture_name_ne (t : Nat) (s r : WrapMode) : (forTexture t s r).name ≠ nullName := by
  intro h
  have hlists := congrArg String.toList h
  simp [forTexture, nullName] at hlists

end Material

/-! ### Scenes -/

/-- No two materials have one name or one texture, and every mesh has one of the materials. -/
structure Scene.WellNamed (s : Scene) : Prop where
  names_nodup : (s.materials.toList.map Material.name).Nodup
  textures_nodup : (s.materials.toList.filterMap Material.texture).Nodup
  oneLine : ∀ a ∈ s.materials, '\n' ∉ a.name.toList
  material_lt : ∀ mesh ∈ s.meshes, mesh.material < s.materials.size

/-- Materials of one texture are one material. -/
theorem Scene.WellNamed.eq_of_texture {s : Scene} (h : s.WellNamed) {k k' texture : Nat}
    {m m' : Material} (hm : s.materials[k]? = some m) (hm' : s.materials[k']? = some m')
    (htexture : m.texture = some texture) (htexture' : m'.texture = some texture) : k = k' := by
  have hnodup := h.textures_nodup
  rw [List.Nodup, List.pairwise_filterMap, List.pairwise_iff_getElem] at hnodup
  obtain ⟨hk, rfl⟩ := Array.getElem?_eq_some_iff.mp hm
  obtain ⟨hk', rfl⟩ := Array.getElem?_eq_some_iff.mp hm'
  rcases Nat.lt_trichotomy k k' with hlt | heq | hlt
  · exact absurd rfl (hnodup k k' hk hk' hlt texture htexture texture htexture')
  · exact heq
  · exact absurd rfl (hnodup k' k hk' hk hlt texture htexture' texture htexture)

theorem PlacedBatch.material_of_mesh? {store : Array Vertex} {pool : Array TexCoord}
    {p : PlacedBatch} {mesh : Mesh} (h : p.mesh? store pool = some mesh) :
    mesh.material = p.batch.material := by
  unfold mesh? at h
  split at h
  · cases h
  · obtain rfl := Option.some.inj h
    exact Mesh.material_ofBatch ..

theorem Model.wellNamed_of_decode {m : Model} {codec : Codec} {limit : Nat} {out : Decoded}
    (h : (m.decode codec limit).result = .ok out) : out.scene.WellNamed := by
  obtain ⟨uses, huses, hmaterials⟩ := exists_uses_of_decode h
  have hnodup := huses.firsts.nodup
  refine ⟨?_, ?_, not_mem_name_of_decode h, fun mesh hmesh => ?_⟩
  · rw [hmaterials, List.map_cons, List.map_map, List.nodup_cons]
    constructor
    · intro hmem
      obtain ⟨u, -, hu⟩ := List.mem_map.mp hmem
      exact Material.forTexture_name_ne _ _ _ hu
    · rw [List.Nodup, List.pairwise_map] at hnodup ⊢
      exact hnodup.imp fun hne hname => hne (Material.forTexture_name_inj hname)
  · have htextures : (Material.null :: uses.map (Decoder.Use.material m codec)).filterMap
        Material.texture = uses.map Decoder.Use.texture := by
      rw [List.filterMap_cons_none rfl, List.filterMap_map]
      exact congrFun List.filterMap_eq_map uses
    rw [hmaterials, htextures]
    exact hnodup
  · obtain ⟨p, pool, hbatch, hmesh⟩ := exists_batch_of_decode h hmesh
    have hlt := huses.tag_lt (List.mem_map_of_mem (f := Batch.material) hbatch)
    rw [PlacedBatch.material_of_mesh? hmesh, ← Array.length_toList, hmaterials]
    rwa [← Array.length_toList, huses.materials_eq] at hlt

/-! ### Images -/

namespace Export

variable {stem : String} {t t' : Nat}

/-- What the name of an image ends in. -/
def imageTail (t : Nat) : List Char :=
  (Numeral.decimal 4 t).toList ++ ['.', 'p', 'n', 'g']

/-- What stands after the last underscore says which texture it is. -/
theorem eq_of_imageTail {before before' : List Char}
    (h : before ++ '_' :: imageTail t = before' ++ '_' :: imageTail t') : t = t' := by
  have hfree (t : Nat) : '_' ∉ imageTail t := by
    have hdigits := Numeral.not_mem_decimal (c := '_') (by decide) 4 t
    simp [imageTail, hdigits]
  have hsplit := congrArg (List.splitOn '_') h
  rw [List.splitOn_append_cons_self, List.splitOn_append_cons_self,
    List.splitOn_eq_singleton (hfree t), List.splitOn_eq_singleton (hfree t')] at hsplit
  have htail : imageTail t = imageTail t' := by
    simpa using (List.append_inj' hsplit (by simp)).2
  exact Numeral.decimal_injective 4 (String.toList_inj.mp (List.append_cancel_right htail))

theorem toList_imageName (stem : String) (t : Nat) :
    (imageName stem t).toList = (stem ++ "_tex").toList ++ '_' :: imageTail t := by
  simp [imageName, imageTail]

theorem imageName_inj (h : imageName stem t = imageName stem t') : t = t' := by
  have hlists := congrArg String.toList h
  rw [toList_imageName, toList_imageName] at hlists
  exact eq_of_imageTail hlists

/-- Words are about the image of one texture only, with the option or without. -/
theorem eq_of_imageWords {clamped clamped' : Bool}
    (h : Wavefront.imageWords clamped (imageName stem t) =
      Wavefront.imageWords clamped' (imageName stem t')) : t = t' := by
  have hends (clamped : Bool) (t : Nat) : ∃ before,
      (Wavefront.imageWords clamped (imageName stem t)).toList = before ++ '_' :: imageTail t := by
    cases clamped with
    | true => exact ⟨Wavefront.clampOption.toList ++ (stem ++ "_tex").toList, by
        rw [Wavefront.imageWords, if_pos rfl, String.toList_append, toList_imageName,
          List.append_assoc]⟩
    | false => exact ⟨_, toList_imageName stem t⟩
  obtain ⟨before, hbefore⟩ := hends clamped t
  obtain ⟨before', hbefore'⟩ := hends clamped' t'
  rw [← String.toList_inj, hbefore, hbefore'] at h
  exact eq_of_imageTail h

/-- The name of an image begins like the option only if the stem does. -/
theorem clampOption_prefix_imageName_iff (stem : String) (t : Nat) :
    Wavefront.clampOption.toList <+: (imageName stem t).toList ↔
      Wavefront.clampOption.toList <+: stem.toList := by
  have hname : (imageName stem t).toList =
      stem.toList ++ '_' :: ("tex_".toList ++ imageTail t) := by
    simp [imageName, imageTail]
  rw [hname]
  constructor
  · intro h
    by_cases hlength : Wavefront.clampOption.toList.length ≤ stem.toList.length
    · exact List.prefix_of_prefix_length_le h (List.prefix_append _ _) hlength
    · have hwhole : stem.toList ++ ['_'] <+:
          stem.toList ++ '_' :: ("tex_".toList ++ imageTail t) := by simp
      have hmark : stem.toList ++ ['_'] <+: Wavefront.clampOption.toList := by
        refine List.prefix_of_prefix_length_le hwhole h ?_
        rw [List.length_append, List.length_singleton]
        omega
      exact absurd (hmark.subset (by simp)) (by decide : '_' ∉ Wavefront.clampOption.toList)
  · exact fun h => h.trans (List.prefix_append _ _)

end Export

end DisplayList

import DisplayList.Proofs.Boundaries
import DisplayList.Proofs.Table

/-!
# First uses of textures

A texture is taken by each load that finds a change to it due. The first load that takes
it makes its material, with the wrap modes of that moment, and asks the codec for its
image, if it has none. Later ones find the material again.
-/
namespace DisplayList.Decoder

/-- The load at `p` takes texture `t`: a change to a texture is due, and `t` was bound last
and is in the table. -/
structure Takes (m : Model) (codec : Codec) (p t : Nat) : Prop where
  load : (m.load? p).isSome
  due : m.Due p .texture
  bound : (before m codec p).state.texture = t
  present : t < (before m codec p).table.textures.size

/-- Where a texture is used. -/
structure Use where
  position : Nat
  texture : Nat
  deriving DecidableEq, Repr

/-- No load before takes the texture. -/
def Use.IsFirst (m : Model) (codec : Codec) (u : Use) : Prop :=
  Takes m codec u.position u.texture ∧ ∀ q, q < u.position → ¬ Takes m codec q u.texture

/-- The first uses of all textures before `p`, in order. -/
structure FirstUses (m : Model) (codec : Codec) (p : Nat) (uses : List Use) : Prop where
  mem_iff : ∀ u, u ∈ uses ↔ u.position < p ∧ u.IsFirst m codec
  sorted : uses.Pairwise fun u v => u.position < v.position

variable {m : Model} {codec : Codec} {p t t' : Nat} {uses : List Use} {u : Use}

theorem Takes.unique (h : Takes m codec p t) (h' : Takes m codec p t') : t = t' :=
  h.bound.symm.trans h'.bound

theorem FirstUses.start : FirstUses m codec 0 [] :=
  ⟨fun u => by simp, .nil⟩

/-- No texture has two first uses. -/
theorem FirstUses.nodup (h : FirstUses m codec p uses) : (uses.map Use.texture).Nodup := by
  rw [List.Nodup, List.pairwise_map]
  refine h.sorted.imp_of_mem fun {u v} hu hv hlt heq => ?_
  obtain ⟨-, hutakes, -⟩ := (h.mem_iff u).mp hu
  obtain ⟨-, -, hvfirst⟩ := (h.mem_iff v).mp hv
  exact hvfirst u.position hlt (heq ▸ hutakes)

theorem FirstUses.mem_of_takes (h : FirstUses m codec p uses) {q : Nat} (hq : q < p)
    (ht : Takes m codec q t) : ∃ u ∈ uses, u.texture = t := by
  induction q using Nat.strong_induction_on with
  | h q ih =>
    by_cases hearlier : ∃ r, r < q ∧ Takes m codec r t
    · obtain ⟨r, hr, hrt⟩ := hearlier
      exact ih r hr (by omega) hrt
    · refine ⟨⟨q, t⟩, (h.mem_iff _).mpr ⟨hq, ht, fun r hr hrt => ?_⟩, rfl⟩
      exact hearlier ⟨r, hr, hrt⟩

/-- A load that takes no texture for the first time leaves the first uses as they are. -/
theorem FirstUses.skip (h : FirstUses m codec p uses)
    (hno : ∀ t, ¬ (Use.mk p t).IsFirst m codec) : FirstUses m codec (p + 1) uses := by
  refine ⟨fun u => ?_, h.sorted⟩
  rw [h.mem_iff]
  constructor
  · intro hu
    exact ⟨by omega, hu.2⟩
  · intro hu
    have hne : u.position ≠ p := by
      intro heq
      apply hno u.texture
      rw [← heq]
      exact hu.2
    exact ⟨by omega, hu.2⟩

/-- A load that takes a texture for the first time adds a first use at the end. -/
theorem FirstUses.snoc (h : FirstUses m codec p uses) (hu : (Use.mk p t).IsFirst m codec) :
    FirstUses m codec (p + 1) (uses ++ [⟨p, t⟩]) := by
  refine ⟨fun v => ?_, ?_⟩
  · rw [List.mem_append, List.mem_singleton, h.mem_iff]
    constructor
    · intro hv
      rcases hv with hv | rfl
      · exact ⟨by omega, hv.2⟩
      · exact ⟨Nat.lt_succ_self p, hu⟩
    · intro hv
      by_cases hp : v.position = p
      · right
        have htexture : v.texture = t := (hp ▸ hv.2.1).unique hu.1
        rw [← hp, ← htexture]
      · exact .inl ⟨by omega, hv.2⟩
  · rw [List.pairwise_append]
    refine ⟨h.sorted, List.pairwise_singleton .., fun v hv w hw => ?_⟩
    rw [List.mem_singleton.mp hw]
    exact ((h.mem_iff v).mp hv).1

section Contents

variable (m codec)

/-- The material made at a first use. -/
def Use.material (u : Use) : Material :=
  .forTexture u.texture (before m codec u.position).state.wrapS
    (before m codec u.position).state.wrapT

/-- What the codec is asked at a first use: the texture as it stands there. -/
def Use.request? (u : Use) : Option CodecRequest :=
  (before m codec u.position).table.textures[u.texture]?.bind (Texture.request? · m.textureData)

/-- What is reported at a first use. -/
def Use.refusal? (u : Use) : Option Diagnostic :=
  (u.request? m codec).bind (TextureTable.refusal? codec u.texture)

end Contents

/-! ### A load that takes a texture -/

namespace Takes

variable (h : Takes m codec p t)

include h

theorem effect : ∃ c, c.opcode? = some .loadVertices ∧
    before m codec (p + 1) = (before m codec p).loadVertices m codec p c := by
  obtain ⟨l, hl⟩ := Option.isSome_iff_exists.mp h.load
  obtain ⟨c, hc, ho, -⟩ := Model.load?_eq_some_iff.mp hl
  exact ⟨c, ho, before_succ_of_load hc ho⟩

theorem table_succ : (before m codec (p + 1)).table =
    ((before m codec p).takeMaterial m codec .texture).1 := by
  obtain ⟨c, -, hstep⟩ := h.effect
  rw [hstep, loadVertices_table, (boundary?_before_iff codec p).mpr h.due]
  rfl

theorem refusals_succ : Diagnostic.refusals (before m codec (p + 1)).diagnostics =
    Diagnostic.refusals (before m codec p).diagnostics ++
      Diagnostic.refusals ((before m codec p).takeMaterial m codec .texture).2.2.diagnostics := by
  obtain ⟨c, -, hstep⟩ := h.effect
  rw [hstep, loadVertices_refusals, (boundary?_before_iff codec p).mpr h.due]
  rfl

theorem exists_texture : ∃ texture, (before m codec p).table.textures[t]? = some texture :=
  ⟨_, Array.getElem?_eq_getElem h.present⟩

theorem takeMaterial_of_some {material : Nat}
    (hm : (before m codec p).table.materialOf? t = some material) :
    (before m codec p).takeMaterial m codec .texture =
      ((before m codec p).table, some material, []) := by
  obtain ⟨texture, htexture⟩ := h.exists_texture
  rw [takeMaterial, h.bound, TextureTable.materialFor_of_some codec _ _ htexture hm]

theorem takeMaterial_of_new {texture : Texture}
    (htexture : (before m codec p).table.textures[t]? = some texture)
    (hm : (before m codec p).table.materialOf? t = none) :
    (before m codec p).takeMaterial m codec .texture =
      let painted := (before m codec p).table.paint codec m.textureData t texture
      ({ painted.1 with
          materials := (before m codec p).table.materials.push (.forTexture t
            (before m codec p).state.wrapS (before m codec p).state.wrapT) },
        some (before m codec p).table.materials.size,
        painted.2 ++ [.note (.materialCreated (before m codec p).table.materials.size t)]) := by
  rw [takeMaterial, h.bound, TextureTable.materialFor_of_new codec _ _ htexture hm]
  simp only [TextureTable.paint_materials]

/-- A first use makes the material, asks the codec and keeps what it answers. -/
theorem made (hm : (before m codec p).table.materialOf? t = none) :
    (before m codec (p + 1)).table.materials.toList =
      (before m codec p).table.materials.toList ++ [(Use.mk p t).material m codec] ∧
    (before m codec (p + 1)).table.requests.toList =
      (before m codec p).table.requests.toList ++ ((Use.mk p t).request? m codec).toList ∧
    Diagnostic.refusals (before m codec (p + 1)).diagnostics =
      Diagnostic.refusals (before m codec p).diagnostics ++
        ((Use.mk p t).refusal? m codec).toList ∧
    ∃ image, (∀ i, (before m codec (p + 1)).table.pixels? i =
        if i = t then some image else (before m codec p).table.pixels? i) ∧
      ∀ q, (Use.mk p t).request? m codec = some q →
        image = (codec q.texture q.raw).toOption := by
  obtain ⟨texture, htexture⟩ := h.exists_texture
  have hrequest : (Use.mk p t).request? m codec = texture.request? m.textureData := by
    simp [Use.request?, htexture]
  have htable := h.table_succ
  have hrefusals := h.refusals_succ
  rw [h.takeMaterial_of_new htexture hm] at htable hrefusals
  rw [hrefusals, htable]
  refine ⟨by simp [Use.material], by simp [hrequest], ?_, ?_⟩
  · simp [Use.refusal?, hrequest, TextureTable.paint_refusals]
  · refine ⟨_, TextureTable.pixels?_paint _ m.textureData t codec htexture, fun q hq => ?_⟩
    rw [← hrequest, hq]
    rfl

end Takes

/-- If a texture is due but there is none, the load opens its batch without one. -/
theorem takeMaterial_of_not_takes (hl : (m.load? p).isSome) (hdue : m.Due p .texture)
    (hno : ∀ t, ¬ Takes m codec p t) : (before m codec p).takeMaterial m codec .texture =
      ((before m codec p).table, none, []) := by
  have hmissing : (before m codec p).table.textures[(before m codec p).state.texture]? = none := by
    rw [Array.getElem?_eq_none_iff]
    by_contra hlt
    exact hno _ ⟨hl, hdue, rfl, by omega⟩
  exact TextureTable.materialFor_of_none codec _ _ hmissing

/-- Every other command leaves the materials, the requests and the images alone. -/
theorem keeps_succ (hno : ∀ t, ¬ Takes m codec p t) :
    (before m codec p).table.Keeps (before m codec (p + 1)).table ∧
      Diagnostic.refusals (before m codec (p + 1)).diagnostics =
        Diagnostic.refusals (before m codec p).diagnostics := by
  cases hc : m.commands[p]? with
  | none =>
    rw [before_succ_of_none hc]
    exact ⟨.refl _, rfl⟩
  | some c =>
    by_cases hload : c.opcode? = some .loadVertices ∧
        (before m codec p).state.boundary? = some .texture
    · obtain ⟨ho, hb⟩ := hload
      have hmaterial := takeMaterial_of_not_takes (by simp [Model.load?_of_load hc ho])
        ((boundary?_before_iff codec p).mp hb) hno
      rw [before_succ_of_load hc ho, loadVertices_table, loadVertices_refusals, hb,
        Option.elim_some, Option.elim_some, hmaterial]
      exact ⟨.refl _, by simp⟩
    · exact (effect_before hc).keeps_table fun ho hb => hload ⟨ho, hb⟩

end DisplayList.Decoder

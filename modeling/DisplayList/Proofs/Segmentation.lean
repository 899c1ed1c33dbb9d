import DisplayList.Proofs.Materials

/-!
# Where batches begin

A batch begins at the first load and at every load that has a change of material
between itself and the load before. It is drawn without a texture if the last
of these changes was to none, and otherwise with the texture bound last, if there is one.
-/
namespace DisplayList

/-- Of the positions below `p` with a property one is the last. -/
theorem exists_last_lt {P : Nat → Prop} {p q : Nat} (hq : q < p) (hP : P q) :
    ∃ l, q ≤ l ∧ l < p ∧ P l ∧ ∀ r, l < r → r < p → ¬ P r := by
  induction p with
  | zero => omega
  | succ p ih =>
    by_cases hp : P p
    · exact ⟨p, by omega, by omega, hp, fun r hr hrp => by omega⟩
    · have hqp : q ≠ p := by
        intro heq
        exact hp (heq ▸ hP)
      obtain ⟨l, hql, hl, hPl, hlast⟩ := ih (by omega)
      refine ⟨l, hql, by omega, hPl, fun r hr hrp => ?_⟩
      rcases Nat.lt_succ_iff_lt_or_eq.mp hrp with hrp | rfl
      · exact hlast r hr hrp
      · exact hp

namespace Model

variable {m : Model} {p q : Nat} {c : Command}

/-- The load before the command at `p` is at `q`. -/
structure PreviousLoad (m : Model) (p q : Nat) : Prop where
  earlier : q < p
  load : (m.load? q).isSome
  last : ∀ r, q < r → r < p → m.load? r = none

/-- A change is due before the first load, and before another load exactly if there is one
between it and the load before. -/
theorem exists_due_iff : (∃ b, m.Due p b) ↔ (∀ q < p, m.load? q = none) ∨
    ∃ q e, m.PreviousLoad p q ∧ q < e ∧ e < p ∧ (m.change? e).isSome := by
  constructor
  · intro hdue
    obtain ⟨b, ⟨e, hep, hchange, hsince, -⟩ | ⟨-, hnone⟩⟩ := hdue
    · by_cases hload : ∃ q < p, (m.load? q).isSome
      · obtain ⟨q, hq, hl⟩ := hload
        obtain ⟨q, -, hqp, hl, hlast⟩ := exists_last_lt (P := fun q => (m.load? q).isSome) hq hl
        have hqe : q < e := by
          rcases Nat.lt_trichotomy q e with hlt | rfl | hlt
          · exact hlt
          · simp [change?_of_load hl] at hchange
          · simp [hsince q hlt hqp] at hl
        exact .inr ⟨q, e, ⟨hqp, hl, fun r hr hrp => by simpa using hlast r hr hrp⟩, hqe, hep,
          by simp [hchange]⟩
      · refine .inl fun q hq => ?_
        by_contra hne
        exact hload ⟨q, hq, Option.isSome_iff_ne_none.mpr hne⟩
    · exact .inl fun q hq => (hnone q hq).1
  · intro h
    by_cases hchange : ∃ e < p, (m.change? e).isSome ∧ ∀ r, e < r → r < p → m.load? r = none
    · obtain ⟨e, hep, he, hsince⟩ := hchange
      obtain ⟨l, hel, hlp, hl, hlast⟩ := exists_last_lt (P := fun e => (m.change? e).isSome) hep he
      obtain ⟨b, hb⟩ := Option.isSome_iff_exists.mp hl
      exact ⟨b, .inl ⟨l, hlp, hb, fun r hr hrp => hsince r (by omega) hrp,
        fun r hr hrp => by simpa using hlast r hr hrp⟩⟩
    · rcases h with hnone | ⟨q, e, hq, hqe, hep, he⟩
      · refine ⟨.null, .inr ⟨rfl, fun q hq => ⟨hnone q hq, ?_⟩⟩⟩
        by_contra hne
        exact hchange ⟨q, hq, Option.isSome_iff_ne_none.mpr hne,
          fun r hr hrp => hnone r hrp⟩
      · exact absurd ⟨e, hep, he, fun r hr hrp => hq.last r (by omega) hrp⟩ hchange

/-- The command at a position, if it binds a texture. -/
def bind? (m : Model) (q : Nat) : Option Command :=
  m.commands[q]?.bind fun c => if c.opcode? = some .bindTexture then some c else none

theorem bind?_eq_some_iff : m.bind? q = some c ↔
    m.commands[q]? = some c ∧ c.opcode? = some .bindTexture := by
  simp only [bind?, Option.bind_eq_some_iff, Option.ite_none_right_eq_some, Option.some.injEq]
  constructor
  · intro h
    obtain ⟨c', hc, ho, rfl⟩ := h
    exact ⟨hc, ho⟩
  · intro h
    exact ⟨c, h.1, h.2, rfl⟩

/-- The last texture bound before the command at `p` is bound at `q`. -/
structure LastBind (m : Model) (p q : Nat) (c : Command) : Prop where
  earlier : q < p
  bind : m.bind? q = some c
  last : ∀ r, q < r → r < p → m.bind? r = none

end Model

namespace Decoder

variable {m : Model} {codec : Codec} {d d' : Decoder} {p q t : Nat} {c : Command}

/-- The texture bound last before the command at `p`: the first one that answered to the address,
or else one added at the end. Before any texture is bound it is the first of the model. -/
def Selected (m : Model) (codec : Codec) (p t : Nat) : Prop :=
  (∃ q c, m.LastBind p q c ∧
    t = ((before m codec q).table.find? c.address).getD (before m codec q).table.textures.size) ∨
  (∀ q < p, m.bind? q = none) ∧ t = 0

theorem Effect.texture_eq (h : Effect m codec d p c d') : d'.state.texture =
    if c.opcode? = some .bindTexture then
      (d.table.find? c.address).getD d.table.textures.size
    else d.state.texture := by
  cases h with
  | idle h => rcases h with h | h | h <;> simp [h]
  | selectNull h => simp [h, DrawState.selectNull]
  | bindTexture h =>
    simp [h, Decoder.bindTexture_eq, DrawState.bindTexture, TextureTable.select_index]
  | setTile h => simp [h, Decoder.setTile, DrawState.applyTile]
  | loadPalette h =>
    rw [loadPalette_state]
    split <;> simp [h, DrawState.markTexture]
  | setScale h => simp [h, DrawState.setScales]
  | loadVertices h => simp [h, DrawState.settle_eq]
  | stray h => rcases c.faces_ne_nil_iff.mp h with h | h <;> simp [h]
  | draw h he => rcases c.faces_ne_nil_iff.mp h with h | h <;> simp [h]

theorem selected_succ_of_none (hp : m.bind? p = none) (h : Selected m codec p t) :
    Selected m codec (p + 1) t := by
  rcases h with ⟨q, c, hq, ht⟩ | ⟨hnone, ht⟩
  · refine .inl ⟨q, c, ⟨Nat.lt_succ_of_lt hq.earlier, hq.bind, fun r hr hrp => ?_⟩, ht⟩
    rcases Nat.lt_succ_iff_lt_or_eq.mp hrp with hrp | rfl
    · exact hq.last r hr hrp
    · exact hp
  · refine .inr ⟨fun q hq => ?_, ht⟩
    rcases Nat.lt_succ_iff_lt_or_eq.mp hq with hq | rfl
    · exact hnone q hq
    · exact hp

/-- The drawing state keeps the texture bound last. -/
theorem selected_before (m : Model) (codec : Codec) (p : Nat) :
    Selected m codec p (before m codec p).state.texture := by
  induction p with
  | zero => exact .inr ⟨fun q hq => by omega, rfl⟩
  | succ p ih =>
    cases hc : m.commands[p]? with
    | none =>
      rw [before_succ_of_none hc]
      exact selected_succ_of_none (by simp [Model.bind?, hc]) ih
    | some c =>
      rw [(effect_before hc).texture_eq]
      by_cases ho : c.opcode? = some .bindTexture
      · rw [if_pos ho]
        exact .inl ⟨p, c, ⟨by omega, by simp [Model.bind?, hc, ho], fun r hr hrp => by omega⟩, rfl⟩
      · rw [if_neg ho]
        exact selected_succ_of_none (by simp [Model.bind?, hc, ho]) ih

/-- How the load at `p` stands to the batches at the end of a run. It opens one if there was a
change since the load before, and the last such change decides on the material. -/
structure SegmentedAt (m : Model) (codec : Codec) (r : Decoder) (p : Nat) : Prop where
  opens_iff : Opens m codec p ↔ (m.load? p).isSome ∧ ((∀ q < p, m.load? q = none) ∨
    ∃ q e, m.PreviousLoad p q ∧ q < e ∧ e < p ∧ (m.change? e).isSome)
  batch : Opens m codec p → ∃ b,
    r.recording.batches[(before m codec p).recording.batches.size]? = some b ∧
    ((∃ e, m.LastChange p e .null) ∨ (¬ ∃ e change, m.LastChange p e change) →
      b.material = Material.nullIndex) ∧
    ((∃ e, m.LastChange p e .texture) → ∃ t, Selected m codec p t ∧
      (t < (before m codec p).table.textures.size →
        ∀ k, (r.table.materials[k]?).bind Material.texture = some t ↔ k = b.material) ∧
      ((before m codec p).table.textures.size ≤ t → b.material = Material.nullIndex))

/-- Batches begin where the material changes, in every run that succeeds. -/
theorem batches_follow_changes (m : Model) (codec : Codec) (limit : Nat) (r : Decoder)
    (hrun : (run m codec limit (start m)).result = .ok r) (p : Nat) :
    SegmentedAt m codec r p := by
  obtain ⟨rfl, -⟩ := run_eq_ok hrun
  obtain ⟨uses, h⟩ := exists_catalogued m codec m.commands.size
  refine ⟨by rw [opens_iff_due, Model.exists_due_iff], fun hopens => ?_⟩
  obtain ⟨hl, change, hdue⟩ := opens_iff_due.mp hopens
  have hp := Model.lt_size_of_load hl
  have hboundary := (boundary?_before_iff codec p).mpr hdue
  have hunique (change' : Boundary) (h' : m.Due p change') : change = change' := by
    rw [← boundary?_before_iff codec, hboundary] at h'
    exact Option.some.inj h'
  by_cases htakes : ∃ t, Takes m codec p t
  · obtain ⟨t, ht⟩ := htakes
    obtain rfl : change = .texture := hunique _ ht.due
    obtain ⟨i, u, hi, hu, htag⟩ := h.tagged p t hp ht
    obtain ⟨b, hb, hmaterial⟩ := exists_batch_of_tag htag
    refine ⟨b, hb, fun hnull => ?_, fun _ => ⟨t, ht.bound ▸ selected_before m codec p, ?_, ?_⟩⟩
    · rcases hnull with ⟨e, he⟩ | hno
      · cases hunique _ (.inl ⟨e, he⟩)
      · rcases hdue with ⟨e, he⟩ | ⟨hne, -⟩
        · exact absurd ⟨e, _, he⟩ hno
        · cases hne
    · intro _ k
      rw [hmaterial, finish_table, ← hu]
      exact h.texture_eq_iff hi
    · intro hle
      have hlt := ht.present
      omega
  · have hno : ∀ t, ¬ Takes m codec p t := fun t ht => htakes ⟨t, ht⟩
    obtain ⟨b, hb, hmaterial⟩ := exists_batch_of_tag (tag_of_not_takes hp hopens hno)
    refine ⟨b, hb, fun _ => hmaterial, fun htexture => ?_⟩
    obtain ⟨e, he⟩ := htexture
    refine ⟨_, selected_before m codec p, fun hlt => ?_, fun _ => hmaterial⟩
    exact absurd ⟨hl, .inl ⟨e, he⟩, rfl, hlt⟩ (hno _)

/-- Drawing without a texture is called off by a palette with the mark of a new texture. -/
def samplePalette : Model where
  vertices := .replicate 1 {}
  textures := #[{ dataOffset := 0, format := .rgba16, width := 1, height := 1 }]
  textureData := [255, 255]
  commands := #[.ofFields 253 0 0 0 0, .ofFields 4 0 4 0 0, .ofFields 182 0 0 0 0,
    .ofFields 240 0 0 0 0, .ofFields 4 0 4 0 0, .ofFields 6 0 0 0 0, .ofFields 6 0 0 0 0,
    .ofFields 186 0 0 0 0]

theorem batches_follow_changes_palette :
    ∃ r, (run samplePalette .packed 8 (start samplePalette)).result = .ok r ∧
      SegmentedAt samplePalette .packed r 4 :=
  ⟨_, rfl, batches_follow_changes samplePalette .packed 8 _ rfl 4⟩

end Decoder

end DisplayList

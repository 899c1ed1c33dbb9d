import DisplayList.Proofs.FaceResolution

/-!
# Changes of material

Two flags of the drawing state say which change of material is due. Here the change that
is due is read off the display list: it is the last one since the load before, and
before the first load drawing without a texture counts as one. A load opens a batch
exactly if a change is due, and the batch keeps its material from then on.
-/
namespace DisplayList

namespace Model

variable {m : Model} {p q : Nat} {b b' : Boundary}

/-- The change of material that a command brings. A palette brings one only if the mark of a
new texture stands four commands later. -/
def change? (m : Model) (q : Nat) : Option Boundary :=
  m.commands[q]?.bind fun c =>
    match c.opcode? with
    | some .selectNull => some .null
    | some .bindTexture => some .texture
    | some .loadPalette =>
      if m.commands[q + 4]?.bind Command.opcode? = some .newTexture then some .texture else none
    | _ => none

theorem change?_of_load (h : (m.load? q).isSome) : m.change? q = none := by
  obtain ⟨l, hl⟩ := Option.isSome_iff_exists.mp h
  obtain ⟨c, hc, ho, -⟩ := load?_eq_some_iff.mp hl
  simp [change?, hc, ho]

/-- The last change since the load before the command at `p` is at `q`. -/
structure LastChange (m : Model) (p q : Nat) (b : Boundary) : Prop where
  earlier : q < p
  change : m.change? q = some b
  since : ∀ r, q < r → r < p → m.load? r = none
  last : ∀ r, q < r → r < p → m.change? r = none

theorem LastChange.unique {q' : Nat} (h : m.LastChange p q b) (h' : m.LastChange p q' b') :
    q = q' ∧ b = b' := by
  have hq := h.change
  have hq' := h'.change
  rcases Nat.lt_trichotomy q q' with hlt | rfl | hlt
  · rw [h.last q' hlt h'.earlier] at hq'
    cases hq'
  · exact ⟨rfl, Option.some.inj (hq.symm.trans hq')⟩
  · rw [h'.last q hlt h.earlier] at hq
    cases hq

/-- A change of one kind is due before the command at `p`. -/
def Due (m : Model) (p : Nat) (b : Boundary) : Prop :=
  (∃ q, m.LastChange p q b) ∨
    b = .null ∧ ∀ q, q < p → m.load? q = none ∧ m.change? q = none

theorem due_succ_of_load (h : (m.load? p).isSome) : ¬ m.Due (p + 1) b := by
  intro hdue
  rcases hdue with ⟨q, hq, hchange, hsince, -⟩ | ⟨-, hnone⟩
  · rcases Nat.lt_succ_iff_lt_or_eq.mp hq with hlt | rfl
    · simp [hsince p hlt (by omega)] at h
    · simp [change?_of_load h] at hchange
  · simp [(hnone p (by omega)).1] at h

theorem due_succ_of_change (h : m.change? p = some b') : m.Due (p + 1) b ↔ b = b' := by
  have hlast : m.LastChange (p + 1) p b' :=
    ⟨by omega, h, fun r hr hrp => by omega, fun r hr hrp => by omega⟩
  constructor
  · intro hdue
    rcases hdue with ⟨q, hq⟩ | ⟨-, hnone⟩
    · exact (hq.unique hlast).2
    · simp [(hnone p (by omega)).2] at h
  · intro hb
    subst hb
    exact .inl ⟨p, hlast⟩

theorem due_succ_of_neither (hl : m.load? p = none) (hc : m.change? p = none) :
    m.Due (p + 1) b ↔ m.Due p b := by
  have hsucc (q : Nat) (hq : q ≠ p) (hqp : q < p + 1) : q < p := by omega
  constructor
  · intro hdue
    rcases hdue with ⟨q, hq, hchange, hsince, hlast⟩ | ⟨hb, hnone⟩
    · have hqp : q ≠ p := by
        intro h
        simp [h, hc] at hchange
      exact .inl ⟨q, hsucc q hqp hq, hchange, fun r hr hrp => hsince r hr (by omega),
        fun r hr hrp => hlast r hr (by omega)⟩
    · exact .inr ⟨hb, fun q hq => hnone q (by omega)⟩
  · intro hdue
    rcases hdue with ⟨q, hq, hchange, hsince, hlast⟩ | ⟨hb, hnone⟩
    · refine .inl ⟨q, by omega, hchange, fun r hr hrp => ?_, fun r hr hrp => ?_⟩
      · by_cases hrp' : r = p
        · exact hrp' ▸ hl
        · exact hsince r hr (hsucc r hrp' hrp)
      · by_cases hrp' : r = p
        · exact hrp' ▸ hc
        · exact hlast r hr (hsucc r hrp' hrp)
    · refine .inr ⟨hb, fun q hq => ?_⟩
      by_cases hqp : q = p
      · exact hqp ▸ ⟨hl, hc⟩
      · exact hnone q (hsucc q hqp hq)

end Model

namespace DrawState

variable (s : DrawState)

@[simp] theorem boundary?_markTexture : s.markTexture.boundary? = some .texture := rfl

@[simp] theorem boundary?_applyTile (tile : Tile) :
    (s.applyTile tile).boundary? = s.boundary? := rfl

@[simp] theorem boundary?_setScales (operand : UInt32) :
    (s.setScales operand).boundary? = s.boundary? := rfl

end DrawState

/-- The materials of all batches in order. -/
def Recording.tags (r : Recording) : List Nat :=
  r.batches.toList.map Batch.material

namespace Decoder

variable {m : Model} {codec : Codec} {d d' : Decoder} {p q : Nat} {c : Command} {b : Boundary}

/-- A load settles what is due; any other command makes its change due, if it brings one. -/
theorem Effect.boundary?_eq (h : Effect m codec d p c d') (hc : m.commands[p]? = some c) :
    d'.state.boundary? =
      if c.opcode? = some .loadVertices then none else (m.change? p).or d.state.boundary? := by
  simp only [Model.change?, hc, Option.bind_some]
  cases h with
  | idle h => rcases h with h | h | h <;> simp [h]
  | selectNull h => simp [h]
  | bindTexture h => simp [h, Decoder.bindTexture_eq]
  | setTile h => simp [h, Decoder.setTile]
  | loadPalette h =>
    rw [loadPalette_state]
    by_cases hm : m.commands[p + 4]?.bind Command.opcode? = some .newTexture
    · simp [h, hm, marksTexture_eq, markDistance]
    · simp [h, hm, marksTexture_eq, markDistance]
  | setScale h => simp [h]
  | loadVertices h =>
    rw [loadVertices_state, loadWindow_state, if_pos h]
    rfl
  | stray h => rcases c.faces_ne_nil_iff.mp h with h | h <;> simp [h]
  | draw h he => rcases c.faces_ne_nil_iff.mp h with h | h <;> simp [h]

/-- The flags of the drawing state say which change is due. -/
theorem boundary?_before_iff (codec : Codec) (p : Nat) :
    (before m codec p).state.boundary? = some b ↔ m.Due p b := by
  induction p with
  | zero =>
    simp only [before_zero, start, DrawState.initial, DrawState.boundary?]
    constructor
    · intro h
      exact .inr ⟨(Option.some.inj h).symm, fun q hq => by omega⟩
    · intro h
      rcases h with ⟨q, hq⟩ | ⟨rfl, -⟩
      · exact absurd hq.earlier (by omega)
      · rfl
  | succ p ih =>
    cases hc : m.commands[p]? with
    | none =>
      rw [before_succ_of_none hc, ih,
        Model.due_succ_of_neither (by simp [Model.load?, hc]) (by simp [Model.change?, hc])]
    | some c =>
      rw [(effect_before hc).boundary?_eq hc]
      by_cases ho : c.opcode? = some .loadVertices
      · have hload : (m.load? p).isSome := by simp [Model.load?_of_load hc ho]
        simp [ho, Model.due_succ_of_load hload]
      · have hl := Model.load?_of_not_load hc ho
        cases hchange : m.change? p with
        | none => simp [ho, ih, Model.due_succ_of_neither hl hchange]
        | some b' => simp [ho, Model.due_succ_of_change hchange, eq_comm]

/-- A batch is opened by exactly those loads before which a change is due. -/
theorem opens_iff_due : Opens m codec p ↔ (m.load? p).isSome ∧ ∃ b, m.Due p b := by
  have hdue : (∃ b, m.Due p b) ↔ (before m codec p).state.boundary?.isSome := by
    rw [Option.isSome_iff_exists]
    exact exists_congr fun b => (boundary?_before_iff codec p).symm
  rw [hdue, Opens]
  cases hc : m.commands[p]? with
  | none => simp [before_succ_of_none hc, Model.load?, hc]
  | some c =>
    rw [(effect_before hc).size_batches]
    by_cases ho : c.opcode? = some .loadVertices
    · cases (before m codec p).state.boundary? <;> simp [ho, Model.load?_of_load hc ho]
    · simp [ho, Model.load?_of_not_load hc ho]

/-- A batch keeps its material; a load adds a batch in the material of the change that is due. -/
theorem Effect.tags_eq (h : Effect m codec d p c d') : d'.recording.tags = d.recording.tags ++
    if c.opcode? = some .loadVertices then
      (d.state.boundary?.map fun b =>
        (d.takeMaterial m codec b).2.1.getD Material.nullIndex).toList
    else [] := by
  rcases h.window_cases with ⟨hc, -, -, hr⟩ | ⟨hc, rfl⟩ | ⟨hf, epoch, he, rfl⟩
  · simp [hr, hc]
  · rw [loadVertices_recording]
    cases d.state.boundary? <;> simp [hc, Recording.tags]
  · obtain ⟨older, b, hb, -⟩ := (Recording.epoch?_eq_some_iff _).mp he
    obtain ⟨b', hb', hmaterial, -⟩ := foldl_drawTriangle m p epoch hb c.faces
    simp [Recording.tags, hb, hb', hmaterial, Command.ne_load_of_faces hf]

theorem tags_mono {p n : Nat} (hpn : p ≤ n) :
    (before m codec p).recording.tags <+: (before m codec n).recording.tags :=
  before_mono (R := fun d d' => d.recording.tags <+: d'.recording.tags)
    (fun _ => List.prefix_rfl) List.IsPrefix.trans
    (fun d position c => by
      rw [(step_effect m codec d position c).tags_eq]
      exact List.prefix_append ..) hpn

theorem tag_mono {n k tag : Nat} (hpn : p ≤ n)
    (h : (before m codec p).recording.tags[k]? = some tag) :
    (before m codec n).recording.tags[k]? = some tag := by
  obtain ⟨rest, hrest⟩ : (before m codec p).recording.tags <+: (before m codec n).recording.tags :=
    tags_mono hpn
  rw [← hrest, List.getElem?_append_left (List.getElem?_eq_some_iff.mp h).1, h]

/-- The batch opened at `p` has the material of the change that was due, to the end of the run. -/
theorem tag_of_opens (codec : Codec) {n : Nat} (hpn : p < n) (hl : (m.load? p).isSome)
    (hb : m.Due p b) :
    (before m codec n).recording.tags[(before m codec p).recording.batches.size]? =
      some (((before m codec p).takeMaterial m codec b).2.1.getD Material.nullIndex) := by
  obtain ⟨l, hl⟩ := Option.isSome_iff_exists.mp hl
  obtain ⟨c, hc, ho, -⟩ := Model.load?_eq_some_iff.mp hl
  have heffect : Effect m codec (before m codec p) p c (before m codec (p + 1)) :=
    effect_before hc
  have htags := heffect.tags_eq
  rw [if_pos ho, (boundary?_before_iff codec p).mpr hb] at htags
  have hlen : (before m codec p).recording.tags.length =
      (before m codec p).recording.batches.size := by simp [Recording.tags]
  apply tag_mono hpn
  rw [htags, ← hlen]
  simp

end Decoder

end DisplayList

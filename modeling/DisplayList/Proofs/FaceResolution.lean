import DisplayList.Proofs.Epochs
import DisplayList.Proofs.WindowLoad

/-!
# Faces by the history of loads

The window, its epochs and the changes of material that are due are all a way of
keeping, for each slot, the last load that covered it. Here slots are read off the display
list itself: a slot of a face names a vertex exactly if the last load that
covers it is not older than the load that opened the batch and its vertex is in the store.
-/
namespace DisplayList

namespace Model

variable {m : Model} {p s q o : Nat} {l : VertexLoad} {c : Command}

/-- The load at a position, if there is one. -/
def load? (m : Model) (q : Nat) : Option VertexLoad :=
  m.commands[q]?.bind fun c => if c.opcode? = some .loadVertices then some c.vertexLoad else none

theorem load?_eq_some_iff : m.load? q = some l ↔ ∃ c, m.commands[q]? = some c ∧
    c.opcode? = some .loadVertices ∧ c.vertexLoad = l := by
  simp only [load?, Option.bind_eq_some_iff, Option.ite_none_right_eq_some, Option.some.injEq]

theorem load?_of_load (hc : m.commands[q]? = some c) (ho : c.opcode? = some .loadVertices) :
    m.load? q = some c.vertexLoad := by
  simp [load?, hc, ho]

theorem load?_of_not_load (hc : m.commands[q]? = some c) (ho : c.opcode? ≠ some .loadVertices) :
    m.load? q = none := by
  simp [load?, hc, ho]

theorem lt_size_of_load (h : (m.load? q).isSome) : q < m.commands.size := by
  obtain ⟨l, hl⟩ := Option.isSome_iff_exists.mp h
  obtain ⟨c, hc, -⟩ := load?_eq_some_iff.mp hl
  exact (Array.getElem?_eq_some_iff.mp hc).1

/-- The load at `q` is the last one before `p` that covers slot `s`. -/
structure LastLoad (m : Model) (p s q : Nat) (l : VertexLoad) : Prop where
  earlier : q < p
  load : m.load? q = some l
  covers : l.Covers s
  last : ∀ r l', q < r → r < p → m.load? r = some l' → ¬ l'.Covers s

theorem LastLoad.unique {q' : Nat} {l' : VertexLoad} (h : m.LastLoad p s q l)
    (h' : m.LastLoad p s q' l') : q = q' ∧ l = l' := by
  rcases Nat.lt_trichotomy q q' with hlt | rfl | hlt
  · exact absurd h'.covers (h.last q' l' hlt h'.earlier h'.load)
  · exact ⟨rfl, Option.some.inj (h.load.symm.trans h'.load)⟩
  · exact absurd h.covers (h'.last q l hlt h.earlier h.load)

theorem LastLoad.vertexFor_lt (h : m.LastLoad p s q l) : l.vertexFor s < 2 ^ 20 + 63 := by
  obtain ⟨c, -, -, rfl⟩ := load?_eq_some_iff.mp h.load
  have hbase := c.vertexLoad_base_lt
  have hcount := c.vertexLoad_count_lt
  obtain ⟨hle, hlt⟩ := h.covers
  unfold VertexLoad.vertexFor
  omega

theorem lastLoad_succ_of_covers (hl : m.load? p = some l) (hs : l.Covers s) :
    m.LastLoad (p + 1) s p l :=
  ⟨by omega, hl, hs, fun r l' hr hrp => by omega⟩

theorem lastLoad_succ_of_not_covers (hp : ∀ l', m.load? p = some l' → ¬ l'.Covers s) :
    m.LastLoad (p + 1) s q l ↔ m.LastLoad p s q l := by
  constructor
  · intro h
    obtain ⟨hq, hl, hs, hlast⟩ := h
    have hqp : q ≠ p := by
      intro heq
      subst heq
      exact hp l hl hs
    exact ⟨by omega, hl, hs, fun r l' hr hrp => hlast r l' hr (by omega)⟩
  · intro h
    obtain ⟨hq, hl, hs, hlast⟩ := h
    refine ⟨by omega, hl, hs, fun r l' hr hrp hl' => ?_⟩
    rcases Nat.lt_succ_iff_lt_or_eq.mp hrp with hlt | rfl
    · exact hlast r l' hr hlt hl'
    · exact hp l' hl'

/-- Before the command at `p`, slot `s` names vertex `v` for a batch opened at `o`. -/
def Names (m : Model) (o p s v : Nat) : Prop :=
  s < 32 ∧ ∃ q l, m.LastLoad p s q l ∧ o ≤ q ∧ l.vertexFor s < m.vertices.size ∧
    v = l.vertexFor s

/-- Before the command at `p`, slot `s` still holds a vertex from before a batch that was
opened at `o`. -/
def Outdated (m : Model) (o p s : Nat) : Prop :=
  s < 32 ∧ ∃ q l, m.LastLoad p s q l ∧ q < o ∧ l.vertexFor s < m.vertices.size

/-- What becomes of a face, by the history of loads: it is drawn exactly if all of its slots
name vertices, and dropped with the first slot that names none otherwise. -/
structure FaceOutcome (m : Model) (o p : Nat) (slots : Triangle Nat)
    (outcome : Except (Nat × SlotFault) (Triangle UInt32)) : Prop where
  drawn : ∀ vertices, outcome = .ok vertices ↔
    List.Forall₂ (fun s v => m.Names o p s v.toNat) slots.toList vertices.toList
  dropped : ∀ s fault, outcome = .error (s, fault) ↔
    (∃ earlier later, slots.toList = earlier ++ s :: later ∧
      ∀ x ∈ earlier, ∃ v, m.Names o p x v) ∧
    (¬ ∃ v, m.Names o p s v) ∧ (fault = .stale ↔ m.Outdated o p s)

end Model

namespace Decoder

open VertexWindow

variable {m : Model} {codec : Codec} {p o s : Nat} {c : Command} {l : VertexLoad}
  {e : WindowEntry}

/-- Slot `s` holds what the last load before `p` wrote into it, in the epoch of that load. -/
def Written (m : Model) (codec : Codec) (p s : Nat) (e : WindowEntry) : Prop :=
  s < 32 ∧ ∃ q l, m.LastLoad p s q l ∧ l.vertexFor s < m.vertices.size ∧
    e.vertex.toNat = l.vertexFor s ∧ e.epoch = (before m codec (q + 1)).state.epoch

theorem written_succ_of_not_covers (hp : ∀ l', m.load? p = some l' → ¬ l'.Covers s) :
    Written m codec (p + 1) s e ↔ Written m codec p s e := by
  simp only [Written, Model.lastLoad_succ_of_not_covers hp]

theorem written_succ_of_covers (hl : m.load? p = some l) (hs : l.Covers s) :
    Written m codec (p + 1) s e ↔ s < 32 ∧ l.vertexFor s < m.vertices.size ∧
      e.vertex.toNat = l.vertexFor s ∧ e.epoch = (before m codec (p + 1)).state.epoch := by
  have hlast := Model.lastLoad_succ_of_covers hl hs
  constructor
  · intro h
    obtain ⟨hs32, q, l', hl', hrest⟩ := h
    obtain ⟨rfl, rfl⟩ := hl'.unique hlast
    exact ⟨hs32, hrest⟩
  · intro h
    obtain ⟨hs32, hrest⟩ := h
    exact ⟨hs32, p, l, hlast, hrest⟩

section Load

variable {d : Decoder}

theorem get?_loadVertices_of_covers (hs : c.vertexLoad.Covers s) :
    (d.loadVertices m codec p c).state.window.get? s = some e ↔
      s < 32 ∧ c.vertexLoad.vertexFor s < m.vertices.size ∧
        e.vertex.toNat = c.vertexLoad.vertexFor s ∧
        e.epoch = (d.loadVertices m codec p c).state.epoch := by
  obtain ⟨hle, hlt⟩ := hs
  simp only [loadVertices_state, loadWindow_state, get?_load]
  by_cases hs32 : s < 32
  · rw [if_pos ⟨hle, hlt, hs32⟩, entryFor_eq_some_iff,
      Command.toNat_nthFrom_vertexLoad c ⟨hle, hlt⟩, ← UInt32.toNat_inj,
      Command.toNat_nthFrom_vertexLoad c ⟨hle, hlt⟩]
    simp [hs32]
  · rw [if_neg (by omega), get?_of_le _ (by omega)]
    simp [hs32]

theorem get?_loadVertices_of_not_covers (hs : ¬ c.vertexLoad.Covers s) :
    (d.loadVertices m codec p c).state.window.get? s = d.state.window.get? s := by
  simp only [loadVertices_state, loadWindow_state, get?_load]
  rw [if_neg fun h => hs ⟨h.1, h.2.1⟩]

end Load

/-- The window after any number of commands holds what the last loads wrote. -/
theorem get?_window_before (p s : Nat) (e : WindowEntry) :
    (before m codec p).state.window.get? s = some e ↔ Written m codec p s e := by
  induction p with
  | zero =>
    simp only [before_zero, start, DrawState.initial, get?_empty]
    constructor
    · intro h
      cases h
    · intro h
      obtain ⟨-, q, l, hl, -⟩ := h
      exact absurd hl.earlier (by omega)
  | succ p ih =>
    cases hc : m.commands[p]? with
    | none =>
      rw [written_succ_of_not_covers (by simp [Model.load?, hc]), before_succ_of_none hc, ih]
    | some c =>
      rcases (effect_before hc).window_cases with ⟨ho, hw, -⟩ | ⟨ho, hd⟩ | ⟨hf, epoch, -, hd⟩
      · rw [written_succ_of_not_covers (by simp [Model.load?_of_not_load hc ho]), hw, ih]
      · have hl := Model.load?_of_load hc ho
        by_cases hs : c.vertexLoad.Covers s
        · rw [written_succ_of_covers hl hs, hd, get?_loadVertices_of_covers hs]
        · rw [written_succ_of_not_covers (by simp [hl, hs]), hd,
            get?_loadVertices_of_not_covers hs, ih]
      · have ho := Command.ne_load_of_faces hf
        rw [written_succ_of_not_covers (by simp [Model.load?_of_not_load hc ho]), hd,
          foldl_drawTriangle_state, ih]

/-! ### Epochs as a comparison of positions -/

section Current

variable (hsize : m.commands.size < 2 ^ 32) (hp : p < m.commands.size)
  (ho : OpenedAt m codec p o) {epoch : UInt32}
  (he : (before m codec p).recording.epoch? = some epoch)

include hsize hp ho he

/-- What was loaded before `p` belongs to the open batch exactly if it was not loaded before
that batch was opened. -/
theorem epoch_eq_iff {q : Nat} (hq : q < p) :
    (before m codec (q + 1)).state.epoch = epoch ↔ o ≤ q := by
  have hcurrent := (stamped_before m codec (show p < 2 ^ 32 by omega)).current_epoch he
  have hthen := (stamped_before m codec (show q + 1 < 2 ^ 32 by omega)).epoch_eq
  rw [← UInt32.toNat_inj, hcurrent, hthen]
  exact ho.size_eq_iff hq

theorem resolve_before_eq_ok_iff {v : UInt32} :
    (before m codec p).state.window.resolve epoch s = .ok v ↔ m.Names o p s v.toNat := by
  rw [resolve_eq_ok_iff, get?_window_before]
  constructor
  · intro h
    obtain ⟨hs, q, l, hl, hlt, hv, hq⟩ := h
    exact ⟨hs, q, l, hl, (epoch_eq_iff hsize hp ho he hl.earlier).mp hq.symm, hlt, hv⟩
  · intro h
    obtain ⟨hs, q, l, hl, hoq, hlt, hv⟩ := h
    exact ⟨hs, q, l, hl, hlt, hv, ((epoch_eq_iff hsize hp ho he hl.earlier).mpr hoq).symm⟩

theorem resolve_before_eq_stale_iff :
    (before m codec p).state.window.resolve epoch s = .error .stale ↔ m.Outdated o p s := by
  rw [resolve_eq_stale_iff]
  constructor
  · intro h
    obtain ⟨e, hget, hne⟩ := h
    obtain ⟨hs, q, l, hl, hlt, -, hq⟩ := (get?_window_before p s e).mp hget
    have hqo : ¬ o ≤ q := by
      rw [← epoch_eq_iff hsize hp ho he hl.earlier, ← hq]
      exact hne
    exact ⟨hs, q, l, hl, by omega, hlt⟩
  · intro h
    obtain ⟨hs, q, l, hl, hqo, hlt⟩ := h
    have hv := hl.vertexFor_lt
    refine ⟨⟨.ofNat (l.vertexFor s), (before m codec (q + 1)).state.epoch⟩, ?_, ?_⟩
    · rw [get?_window_before]
      refine ⟨hs, q, l, hl, hlt, ?_, rfl⟩
      simp only [UInt32.toNat_ofNat']
      omega
    · intro heq
      have := (epoch_eq_iff hsize hp ho he hl.earlier).mp heq
      omega

/-- A slot names a vertex as a number exactly if it names one as a word. -/
theorem exists_resolve_before_iff :
    (∃ v, (before m codec p).state.window.resolve epoch s = .ok v) ↔ ∃ v, m.Names o p s v := by
  simp only [resolve_before_eq_ok_iff hsize hp ho he]
  constructor
  · intro h
    obtain ⟨v, hv⟩ := h
    exact ⟨v.toNat, hv⟩
  · intro h
    obtain ⟨v, hs, q, l, hl, hoq, hlt, rfl⟩ := h
    have hbound := hl.vertexFor_lt
    refine ⟨.ofNat (l.vertexFor s), hs, q, l, hl, hoq, hlt, ?_⟩
    simp only [UInt32.toNat_ofNat']
    omega

/-- A fault is the one that the history of loads gives. -/
theorem resolve_before_eq_error_iff {fault : SlotFault} :
    (before m codec p).state.window.resolve epoch s = .error fault ↔
      (¬ ∃ v, m.Names o p s v) ∧ (fault = .stale ↔ m.Outdated o p s) := by
  rw [← exists_resolve_before_iff hsize hp ho he, ← resolve_before_eq_stale_iff hsize hp ho he]
  cases (before m codec p).state.window.resolve epoch s with
  | ok v => simp
  | error fault' => cases fault <;> cases fault' <;> simp

/-- What the window says of a face is what the history of loads says of it. -/
theorem faceOutcome_resolveTriangle (slots : Triangle Nat) :
    m.FaceOutcome o p slots ((before m codec p).state.window.resolveTriangle epoch slots) where
  drawn vertices := by
    simp only [resolveTriangle_eq_ok_iff, resolve_before_eq_ok_iff hsize hp ho he]
  dropped s fault := by
    simp only [resolveTriangle_eq_error_iff, exists_resolve_before_iff hsize hp ho he]
    rw [resolve_before_eq_error_iff hsize hp ho he]
    constructor
    · intro h
      obtain ⟨earlier, later, hsplit, hearlier, hs⟩ := h
      exact ⟨⟨earlier, later, hsplit, hearlier⟩, hs⟩
    · intro h
      obtain ⟨⟨earlier, later, hsplit, hearlier⟩, hs⟩ := h
      exact ⟨earlier, later, hsplit, hearlier, hs⟩

end Current

/-- Faces are drawn by the last loads of their slots. Whenever a run carries out a face
command, there is a load that opened the batch, and every face of the command goes to
the end of that batch or is reported, as the loads before the command say. -/
theorem faces_drawn_by_last_loads (m : Model) (codec : Codec) (limit : Nat)
    (hsize : m.commands.size < 2 ^ 32) (p : Nat) (c : Command) (hc : m.commands[p]? = some c)
    (hface : c.opcode? = some .drawTriangle ∨ c.opcode? = some .drawQuad)
    (hrun : (runTo m codec limit (p + 1)).1 = .ok ()) :
    ∃ o, OpenedAt m codec p o ∧ (m.load? o).isSome ∧
    ∃ outcomes, List.Forall₂ (m.FaceOutcome o p) c.faces outcomes ∧
    ∃ older b b',
      (runTo m codec limit p).2.recording.batches.toList = older ++ [b] ∧
      (runTo m codec limit (p + 1)).2.recording.batches.toList = older ++ [b'] ∧
      b'.material = b.material ∧ b'.epoch = b.epoch ∧
      b'.vertices = b.vertices ++ (outcomes.filterMap Except.toOption).flatMap Triangle.toList ∧
      (runTo m codec limit (p + 1)).2.diagnostics = (runTo m codec limit p).2.diagnostics ++
        outcomes.filterMap (faceProblem? p) := by
  have hfaces := c.faces_ne_nil_iff.mpr hface
  have hp : p < m.commands.size := (Array.getElem?_eq_some_iff.mp hc).1
  obtain ⟨hbefore, hafter, hok⟩ := runTo_of_succ hc hrun
  obtain ⟨opcode, -, hstep⟩ := step_of_faces m codec (before m codec p) p hfaces
  rw [hbefore, hafter, before_succ hc, hstep]
  rw [hstep] at hok
  cases he : (before m codec p).recording.epoch? with
  | none => simp [drawFaces_eq, he] at hok
  | some epoch =>
    obtain ⟨o, ho⟩ := exists_openedAt m codec (p := p) (by simp [he])
    obtain ⟨older, b, hb, -⟩ := (Recording.epoch?_eq_some_iff _).mp he
    obtain ⟨b', hb', hmaterial, hepoch, hvertices, hproblems⟩ :=
      foldl_drawTriangle m p epoch hb c.faces
    obtain ⟨cₒ, hcₒ, hload, -⟩ := ho.opens.load
    refine ⟨o, ho, by simp [Model.load?_of_load hcₒ hload],
      c.faces.map ((before m codec p).state.window.resolveTriangle epoch), ?_,
      older, b, b', hb, ?_, hmaterial, hepoch, hvertices, ?_⟩
    · rw [List.forall₂_map_right_iff, List.forall₂_same]
      intro slots _
      exact faceOutcome_resolveTriangle hsize hp ho he slots
    · simpa only [drawFaces_eq, he] using hb'
    · simpa only [drawFaces_eq, he] using hproblems

/-- A quad after a change of material: its first half lies in the new batch, its second
half reaches back to a slot of the old one. -/
def sampleQuad : Model where
  vertices := .replicate 6 {}
  commands := #[.ofFields 4 0 12 0 0, .ofFields 182 0 0 0 0, .ofFields 4 0 8 0 48,
    .ofFields 177 0 2 2 0x204]

theorem faces_drawn_by_last_loads_quad :
    sampleQuad.commands[3]? = some (.ofFields 177 0 2 2 0x204) ∧
    (runTo sampleQuad .packed 4 4).1 = .ok () ∧
    ∃ o, OpenedAt sampleQuad .packed 3 o ∧ (sampleQuad.load? o).isSome ∧
    ∃ outcomes, List.Forall₂ (sampleQuad.FaceOutcome o 3) [⟨0, 1, 1⟩, ⟨0, 1, 2⟩] outcomes ∧
    ∃ older b b',
      (runTo sampleQuad .packed 4 3).2.recording.batches.toList = older ++ [b] ∧
      (runTo sampleQuad .packed 4 4).2.recording.batches.toList = older ++ [b'] ∧
      b'.material = b.material ∧ b'.epoch = b.epoch ∧
      b'.vertices = b.vertices ++ (outcomes.filterMap Except.toOption).flatMap Triangle.toList ∧
      (runTo sampleQuad .packed 4 4).2.diagnostics =
        (runTo sampleQuad .packed 4 3).2.diagnostics ++ outcomes.filterMap (faceProblem? 3) :=
  ⟨rfl, rfl, faces_drawn_by_last_loads sampleQuad .packed 4 (by decide) 3
    (.ofFields 177 0 2 2 0x204) rfl (.inr rfl) rfl⟩

end Decoder

end DisplayList

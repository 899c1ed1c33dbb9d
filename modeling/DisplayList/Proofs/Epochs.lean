import DisplayList.Proofs.Drawing
import DisplayList.Proofs.Run
import Mathlib.Algebra.Group.Nat.Defs

/-!
# Batches and their epochs

A batch is only opened by a load that finds a change of material due, and each change
that is settled begins an epoch. So the epoch counts the batches, as long as the
counter does not wrap, and the `k`-th batch carries the number `k + 1`.
-/
namespace DisplayList.Decoder

variable {m : Model} {codec : Codec} {d d' : Decoder} {position : Nat} {c : Command}

theorem foldl_drawTriangle_size (epoch : UInt32) (he : d.recording.epoch? = some epoch)
    (faces : List (Triangle Nat)) :
    (faces.foldl (drawTriangle m position epoch) d).recording.batches.size =
      d.recording.batches.size := by
  obtain ⟨older, b, hb, -⟩ := (Recording.epoch?_eq_some_iff _).mp he
  obtain ⟨b', hb', -⟩ := foldl_drawTriangle m position epoch hb faces
  rw [← Array.length_toList, ← Array.length_toList, hb, hb']
  simp

/-- Only a load with a change of material due opens a batch. -/
theorem Effect.size_batches (h : Effect m codec d position c d') :
    d'.recording.batches.size = d.recording.batches.size +
      if c.opcode? = some .loadVertices ∧ d.state.boundary?.isSome then 1 else 0 := by
  rcases h.window_cases with ⟨hc, -, -, hr⟩ | ⟨hc, rfl⟩ | ⟨hf, epoch, he, rfl⟩
  · simp [hr, hc]
  · rw [loadVertices_recording]
    cases hb : d.state.boundary? <;> simp [hc, Recording.openBatch_eq]
  · rw [foldl_drawTriangle_size epoch he]
    simp [Command.ne_load_of_faces hf]

theorem size_batches_step_le (d : Decoder) (position : Nat) (c : Command) :
    d.recording.batches.size ≤ (d.step m codec position c).2.recording.batches.size := by
  rw [(step_effect m codec d position c).size_batches]
  omega

/-- Batches stay in the recording for the rest of the run. -/
theorem size_batches_mono (m : Model) (codec : Codec) {p q : Nat} (hpq : p ≤ q) :
    (before m codec p).recording.batches.size ≤ (before m codec q).recording.batches.size :=
  before_mono (R := fun d d' => d.recording.batches.size ≤ d'.recording.batches.size)
    (fun _ => Nat.le_refl _) Nat.le_trans size_batches_step_le hpq

theorem size_batches_before_le (m : Model) (codec : Codec) (p : Nat) :
    (before m codec p).recording.batches.size ≤ p := by
  induction p with
  | zero => simp [start]
  | succ p ih =>
    cases hc : m.commands[p]? with
    | none =>
      rw [before_succ_of_none hc]
      omega
    | some c =>
      rw [(effect_before hc).size_batches]
      split <;> omega

/-- The epoch is the number of batches, and every batch has its own number. -/
structure Stamped (d : Decoder) : Prop where
  epoch_eq : d.state.epoch.toNat = d.recording.batches.size
  batch_epoch : ∀ k b, d.recording.batches.toList[k]? = some b → b.epoch.toNat = k + 1

theorem Stamped.start (m : Model) : Stamped (start m) where
  epoch_eq := rfl
  batch_epoch := by simp [Decoder.start]

/-- Settling a change that is due counts one up. -/
theorem Stamped.settle_epoch (h : Stamped d) (hsize : d.recording.batches.size + 1 < 2 ^ 32)
    (hdue : d.state.boundary?.isSome) :
    d.state.settle.epoch.toNat = d.recording.batches.size + 1 := by
  have he := h.epoch_eq
  simp only [DrawState.settle_eq, hdue, if_true, UInt32.toNat_add, UInt32.toNat_one]
  omega

theorem getElem?_concat_cases {α : Type} {l : List α} {a b : α} {k : Nat}
    (h : (l ++ [a])[k]? = some b) : l[k]? = some b ∨ k = l.length ∧ a = b := by
  by_cases hk : k < l.length
  · rw [List.getElem?_append_left hk] at h
    exact .inl h
  · have hlen := (List.getElem?_eq_some_iff.mp h).1
    rw [List.length_append, List.length_singleton] at hlen
    obtain rfl : k = l.length := by omega
    exact .inr ⟨rfl, by simpa using h⟩

/-- A command keeps the numbering while the next number fits into a word. -/
theorem Stamped.effect (h : Stamped d) (hsize : d.recording.batches.size + 1 < 2 ^ 32)
    (heffect : Effect m codec d position c d') : Stamped d' := by
  rcases heffect.window_cases with ⟨-, -, he, hr⟩ | ⟨-, rfl⟩ | ⟨-, epoch, he, rfl⟩
  · exact ⟨by rw [he, hr, h.epoch_eq], fun k b hb => h.batch_epoch k b (hr ▸ hb)⟩
  · cases hb : d.state.boundary? with
    | none =>
      refine ⟨?_, fun k b hk => ?_⟩
      · simpa [hb, DrawState.settle_eq] using h.epoch_eq
      · exact h.batch_epoch k b (by simpa [hb] using hk)
    | some boundary =>
      have hs := h.settle_epoch hsize (by simp [hb])
      refine ⟨?_, fun k b hk => ?_⟩
      · simp [hb, hs, Recording.openBatch_eq]
      · rw [loadVertices_recording, hb, Option.elim_some, Recording.toList_openBatch] at hk
        rcases getElem?_concat_cases hk with hk | ⟨rfl, rfl⟩
        · exact h.batch_epoch k b hk
        · rw [hs, Array.length_toList]
  · obtain ⟨older, b, hb, -⟩ := (Recording.epoch?_eq_some_iff _).mp he
    obtain ⟨b', hb', -, hepoch, -⟩ := foldl_drawTriangle m position epoch hb c.faces
    refine ⟨?_, fun k b₁ hk => ?_⟩
    · rw [foldl_drawTriangle_size epoch he, foldl_drawTriangle_state, h.epoch_eq]
    · rw [hb'] at hk
      have hold := h.batch_epoch k
      rw [hb] at hold
      rcases getElem?_concat_cases hk with hk | ⟨rfl, rfl⟩
      · have hlt := (List.getElem?_eq_some_iff.mp hk).1
        exact hold b₁ (by rw [List.getElem?_append_left hlt, hk])
      · rw [hepoch]
        exact hold b (by simp)

/-- In a run of fewer than `2 ^ 32` commands the epoch counts the batches throughout. -/
theorem stamped_before (m : Model) (codec : Codec) {p : Nat} (hp : p < 2 ^ 32) :
    Stamped (before m codec p) := by
  induction p with
  | zero => exact .start m
  | succ p ih =>
    cases hc : m.commands[p]? with
    | none =>
      rw [before_succ_of_none hc]
      exact ih (by omega)
    | some c =>
      have hsize := size_batches_before_le m codec p
      exact (ih (by omega)).effect (by omega) (effect_before hc)

/-- The open batch carries the number of batches. -/
theorem Stamped.current_epoch (h : Stamped d) {epoch : UInt32}
    (he : d.recording.epoch? = some epoch) : epoch.toNat = d.recording.batches.size := by
  obtain ⟨older, b, hb, rfl⟩ := (Recording.epoch?_eq_some_iff _).mp he
  rw [h.batch_epoch older.length b (by simp [hb]), ← Array.length_toList, hb]
  simp

/-! ### The load that opened a batch -/

/-- Whether the command at a position opens a batch. -/
def Opens (m : Model) (codec : Codec) (p : Nat) : Prop :=
  (before m codec p).recording.batches.size < (before m codec (p + 1)).recording.batches.size

theorem Opens.load {p : Nat} (h : Opens m codec p) : ∃ c, m.commands[p]? = some c ∧
    c.opcode? = some .loadVertices ∧ (before m codec p).state.boundary?.isSome := by
  unfold Opens at h
  cases hc : m.commands[p]? with
  | none =>
    rw [before_succ_of_none hc] at h
    omega
  | some c =>
    rw [(effect_before hc).size_batches] at h
    split at h
    · exact ⟨c, rfl, ‹_›⟩
    · omega

/-- Every batch was opened somewhere. -/
theorem exists_opens_of_lt (m : Model) (codec : Codec) {p k : Nat}
    (hk : k < (before m codec p).recording.batches.size) :
    ∃ q < p, Opens m codec q ∧ (before m codec q).recording.batches.size = k := by
  induction p with
  | zero => simp [start] at hk
  | succ p ih =>
    by_cases hkp : k < (before m codec p).recording.batches.size
    · obtain ⟨q, hq, hopens, hsize⟩ := ih hkp
      exact ⟨q, by omega, hopens, hsize⟩
    · have hopens : Opens m codec p := by
        unfold Opens
        omega
      have hsucc : (before m codec (p + 1)).recording.batches.size ≤
          (before m codec p).recording.batches.size + 1 := by
        obtain ⟨c, hc, -⟩ := hopens.load
        rw [(effect_before hc).size_batches]
        split <;> omega
      exact ⟨p, by omega, hopens, by omega⟩

/-- The batch that is open before the command at `p` was opened at `o`. -/
structure OpenedAt (m : Model) (codec : Codec) (p o : Nat) : Prop where
  earlier : o < p
  opens : Opens m codec o
  last : ∀ r, o < r → r < p → ¬ Opens m codec r

/-- While no batch is opened the number of batches stays. -/
theorem size_batches_eq {a p : Nat} (hap : a ≤ p)
    (h : ∀ r, a ≤ r → r < p → ¬ Opens m codec r) :
    (before m codec a).recording.batches.size = (before m codec p).recording.batches.size := by
  induction p, hap using Nat.le_induction with
  | base => rfl
  | succ p hp ih =>
    have hnot := h p hp (by omega)
    have hmono := size_batches_mono m codec (Nat.le_add_right p 1)
    rw [ih fun r hr hrp => h r hr (by omega)]
    unfold Opens at hnot
    omega

/-- An open batch was opened somewhere. -/
theorem exists_openedAt (m : Model) (codec : Codec) {p : Nat}
    (h : (before m codec p).recording.epoch? ≠ none) :
    ∃ o, OpenedAt m codec p o := by
  induction p with
  | zero => simp [Recording.epoch?, Recording.current?, start] at h
  | succ p ih =>
    by_cases hp : Opens m codec p
    · exact ⟨p, by omega, hp, fun r hr hrp => by omega⟩
    · have hsize : (before m codec p).recording.batches.size =
          (before m codec (p + 1)).recording.batches.size :=
        size_batches_eq (Nat.le_add_right p 1) fun r hr hrp => by rwa [show r = p by omega]
      obtain ⟨o, ho⟩ := ih (by
        rw [Ne, Recording.epoch?_eq_none_iff, ← List.length_eq_zero_iff, Array.length_toList] at *
        omega)
      refine ⟨o, by have := ho.earlier; omega, ho.opens, fun r hr hrp => ?_⟩
      rcases Nat.lt_succ_iff_lt_or_eq.mp hrp with hlt | rfl
      · exact ho.last r hr hlt
      · exact hp

/-- From the opening of the open batch on, and only then, there are as many batches as now. -/
theorem OpenedAt.size_eq_iff {p o q : Nat} (h : OpenedAt m codec p o) (hq : q < p) :
    (before m codec (q + 1)).recording.batches.size = (before m codec p).recording.batches.size ↔
      o ≤ q := by
  constructor
  · intro hsize
    by_contra hlt
    have hopens := h.opens
    have hle := size_batches_mono m codec (show q + 1 ≤ o by omega)
    have hle' := size_batches_mono m codec (show o + 1 ≤ p from h.earlier)
    unfold Opens at hopens
    omega
  · intro hoq
    exact size_batches_eq hq fun r hr hrp => h.last r (by omega) hrp

end DisplayList.Decoder

import DisplayList.Proofs.Meshes
import DisplayList.Proofs.Segmentation

/-!
# Where a decode fails

Drawing without a texture is due from the start, and a change that is due stays due until a load
settles it. So the first load opens a batch, whatever comes before it and whatever it finds in
the store, and a face is stray exactly if no load comes before it. Whether a decode fails, and
how, is decided by the display list and the limit alone.
-/
namespace DisplayList

theorem Opcode.byte_of_ofByte? {b : UInt8} {o : Opcode} (h : ofByte? b = some o) :
    o.byte = b := by
  rw [← UInt8.toNat_inj]
  unfold ofByte? at h
  split at h <;> cases h <;> simp_all [byte]

/-- Of the positions below `n` at which there is something the first one decides. -/
theorem findSome?_range_eq_some_iff {α : Type} {f : Nat → Option α} {n : Nat} {a : α} :
    (List.range n).findSome? f = some a ↔ ∃ p < n, f p = some a ∧ ∀ q < p, f q = none := by
  rw [List.findSome?_eq_some_iff]
  constructor
  · intro h
    obtain ⟨earlier, p, later, hsplit, ha, hearlier⟩ := h
    have hp : p < n := List.mem_range.mp (by simp [hsplit])
    rw [List.range_eq_range', List.range'_eq_append_iff] at hsplit
    obtain ⟨k, -, rfl, hk⟩ := hsplit
    obtain ⟨hkp, -⟩ := List.range'_eq_cons_iff.mp hk.symm
    refine ⟨p, hp, ha, fun q hq => hearlier q ?_⟩
    rw [List.mem_range'_1]
    omega
  · intro h
    obtain ⟨p, hp, ha, hfirst⟩ := h
    obtain ⟨k, rfl⟩ := Nat.exists_eq_add_of_le (Nat.succ_le_of_lt hp)
    refine ⟨List.range p, p, (List.range k).map (p + 1 + ·), ?_, ha,
      fun q hq => hfirst q (List.mem_range.mp hq)⟩
    rw [List.range_add, List.range_succ]
    simp

namespace Model

/-- What stops a run that has come to a position: the limit, or a face without a load before. -/
def halt? (m : Model) (limit p : Nat) : Option DecodeError :=
  m.commands[p]?.bind fun c =>
    if limit ≤ p then some (.commandLimitExceeded limit)
    else if c.faces ≠ [] ∧ ∀ q < p, m.load? q = none then some (.strayFace p c.code)
    else none

/-- What stops a run over the whole display list, if anything does. -/
def failure? (m : Model) (limit : Nat) : Option DecodeError :=
  (List.range m.commands.size).findSome? (m.halt? limit)

/-- The command at `f` is the first that draws faces. -/
structure FirstFace (m : Model) (f : Nat) (c : Command) : Prop where
  command : m.commands[f]? = some c
  face : c.opcode? = some .drawTriangle ∨ c.opcode? = some .drawQuad
  first : ∀ q < f, ∀ c', m.commands[q]? = some c' →
    c'.opcode? ≠ some .drawTriangle ∧ c'.opcode? ≠ some .drawQuad

/-- The first face, with its opcode's byte, comes before the limit and before any load. -/
def Stray (m : Model) (limit f : Nat) (code : UInt8) : Prop :=
  ∃ c, m.FirstFace f c ∧ code = c.code ∧ f < limit ∧ ∀ q < f, m.load? q = none

variable {m : Model} {limit f p : Nat} {code : UInt8} {c : Command}

theorem halt?_of_none (limit : Nat) (hc : m.commands[p]? = none) : m.halt? limit p = none := by
  simp [halt?, hc]

theorem halt?_of_le (hc : m.commands[p]? = some c) (hp : limit ≤ p) :
    m.halt? limit p = some (.commandLimitExceeded limit) := by
  simp [halt?, hc, hp]

theorem halt?_of_lt (hc : m.commands[p]? = some c) (hp : p < limit) : m.halt? limit p =
    if c.faces ≠ [] ∧ ∀ q < p, m.load? q = none then some (.strayFace p c.code)
    else none := by
  simp only [halt?, hc, Option.bind_some, if_neg (Nat.not_le.mpr hp)]

/-- A face is the first of the display list if there is no load before it and nothing stops the
run before. -/
theorem failure?_eq_stray_iff :
    m.failure? limit = some (.strayFace f code) ↔ m.Stray limit f code := by
  rw [failure?, findSome?_range_eq_some_iff]
  constructor
  · intro h
    obtain ⟨p, -, hhalt, hearlier⟩ := h
    obtain ⟨c, hc, hhalt'⟩ := Option.bind_eq_some_iff.mp hhalt
    split at hhalt'
    · cases hhalt'
    · rename_i hlimit
      split at hhalt'
      · rename_i hface
        cases hhalt'
        refine ⟨c, ⟨hc, c.faces_ne_nil_iff.mp hface.1, fun q hq c' hc' => ?_⟩, rfl, by omega,
          hface.2⟩
        rw [← not_or, ← c'.faces_ne_nil_iff]
        intro hface'
        have hnone := hearlier q hq
        rw [halt?_of_lt hc' (by omega), if_pos ⟨hface', fun r hr => hface.2 r (by omega)⟩] at hnone
        cases hnone
      · cases hhalt'
  · intro h
    obtain ⟨c, ⟨hc, hface, hfirst⟩, rfl, hlimit, hload⟩ := h
    refine ⟨f, (Array.getElem?_eq_some_iff.mp hc).1, ?_, fun q hq => ?_⟩
    · rw [halt?_of_lt hc hlimit, if_pos ⟨c.faces_ne_nil_iff.mpr hface, hload⟩]
    · cases hc' : m.commands[q]? with
      | none => exact halt?_of_none limit hc'
      | some c' =>
        have hno := hfirst q hq c' hc'
        rw [← not_or, ← c'.faces_ne_nil_iff] at hno
        rw [halt?_of_lt hc' (by omega), if_neg fun h => hno h.1]

/-- Only a display list with commands past the limit exceeds it. -/
theorem lt_size_of_exceeded {n : Nat} (h : m.failure? limit = some (.commandLimitExceeded n)) :
    n = limit ∧ limit < m.commands.size := by
  obtain ⟨p, hp, hhalt, -⟩ := findSome?_range_eq_some_iff.mp h
  obtain ⟨c, hc, hhalt'⟩ := Option.bind_eq_some_iff.mp hhalt
  split at hhalt'
  · cases hhalt'
    exact ⟨rfl, by omega⟩
  · split at hhalt' <;> cases hhalt'

/-- The limit is exceeded by a display list that is too long, unless a face stops the run. -/
theorem failure?_eq_exceeded_iff {n : Nat} :
    m.failure? limit = some (.commandLimitExceeded n) ↔
      n = limit ∧ limit < m.commands.size ∧ ∀ f code, ¬ m.Stray limit f code := by
  constructor
  · intro h
    obtain ⟨rfl, hsize⟩ := lt_size_of_exceeded h
    refine ⟨rfl, hsize, fun f code hs => ?_⟩
    rw [← failure?_eq_stray_iff, h] at hs
    cases hs
  · intro h
    obtain ⟨rfl, hsize, hstray⟩ := h
    have hhalt := halt?_of_le (Array.getElem?_eq_getElem hsize) (Nat.le_refl n)
    have hsome : (m.failure? n).isSome :=
      List.findSome?_isSome_iff.mpr ⟨n, List.mem_range.mpr hsize, by simp [hhalt]⟩
    obtain ⟨e, he⟩ := Option.isSome_iff_exists.mp hsome
    cases e with
    | strayFace f code => exact absurd (failure?_eq_stray_iff.mp he) (hstray f code)
    | commandLimitExceeded limit => rw [he, (lt_size_of_exceeded he).1]

/-- The limit goes before a face that it cuts off. -/
example : (Model.mk #[] #[] #[.ofFields 191 0 0 0 0] []).failure? 0 =
    some (.commandLimitExceeded 0) := rfl

example : (Model.mk #[] #[] #[.ofFields 191 0 0 0 0] []).failure? 1 =
    some (.strayFace 0 191) := rfl

theorem failure?_eq_none_iff : m.failure? limit = none ↔
    m.commands.size ≤ limit ∧ ∀ f code, ¬ m.Stray limit f code := by
  constructor
  · intro h
    have hstray : ∀ f code, ¬ m.Stray limit f code := fun f code hs => by
      rw [← failure?_eq_stray_iff, h] at hs
      cases hs
    refine ⟨?_, hstray⟩
    by_contra hsize
    have hexceeded := failure?_eq_exceeded_iff.mpr ⟨rfl, Nat.lt_of_not_le hsize, hstray⟩
    rw [h] at hexceeded
    cases hexceeded
  · intro h
    obtain ⟨hsize, hstray⟩ := h
    cases he : m.failure? limit with
    | none => rfl
    | some e =>
      cases e with
      | strayFace f code => exact absurd (failure?_eq_stray_iff.mp he) (hstray f code)
      | commandLimitExceeded n =>
        have hlt := (lt_size_of_exceeded he).2
        omega

end Model

namespace Decoder

variable {m : Model} {codec : Codec} {d : Decoder} {position : Nat} {c : Command}

/-- A batch is open exactly if a load has been carried out. -/
theorem epoch?_before_eq_none_iff (m : Model) (codec : Codec) (p : Nat) :
    (before m codec p).recording.epoch? = none ↔ ∀ q < p, m.load? q = none := by
  rw [Recording.epoch?_eq_none_iff, ← List.length_eq_zero_iff, Array.length_toList]
  induction p with
  | zero => simp [start]
  | succ p ih =>
    have hmono := size_batches_mono m codec (Nat.le_add_right p 1)
    rw [Nat.forall_lt_succ_right, ← ih]
    cases hl : m.load? p with
    | none =>
      have hnot : ¬ Opens m codec p := fun h => by
        have hsome := (opens_iff_due.mp h).1
        simp [hl] at hsome
      unfold Opens at hnot
      rw [eq_self, and_true]
      omega
    | some l =>
      -- the first load finds a change due, and the batch it opens is there to stay
      have hsome : (before m codec (p + 1)).recording.batches.size ≠ 0 := by
        by_cases hzero : (before m codec p).recording.batches.size = 0
        · have hopens : Opens m codec p :=
            opens_iff_due.mpr ⟨by simp [hl], Model.exists_due_iff.mpr (.inl (ih.mp hzero))⟩
          unfold Opens at hopens
          omega
        · omega
      simp [hsome]

/-- Only a face without an open batch fails. -/
theorem step_result (m : Model) (codec : Codec) (d : Decoder) (position : Nat) (c : Command) :
    (d.step m codec position c).1 = if c.faces ≠ [] ∧ d.recording.epoch? = none then
      .error (.strayFace position c.code) else .ok () := by
  by_cases hf : c.faces ≠ []
  · obtain ⟨opcode, ho, hs⟩ := step_of_faces m codec d position hf
    have hbyte : opcode.byte = c.code := Opcode.byte_of_ofByte? ho
    rw [hs, drawFaces_eq]
    cases he : d.recording.epoch? with
    | none => simp [hf, hbyte]
    | some epoch => simp
  · rw [if_neg fun h => hf h.1]
    rw [Command.faces_ne_nil_iff, not_or] at hf
    rw [step_eq]
    split <;> simp_all

/-- A run up to a position fails with what first stops it. -/
theorem runTo_result (m : Model) (codec : Codec) (limit p : Nat) : (runTo m codec limit p).1 =
    ((List.range p).findSome? (m.halt? limit)).elim (.ok ()) .error := by
  induction p with
  | zero => rfl
  | succ p ih =>
    rw [List.range_succ, List.findSome?_append]
    cases hc : m.commands[p]? with
    | none => simp [runTo_succ_of_none limit hc, ih, Model.halt?_of_none limit hc]
    | some c =>
      rw [runTo_succ limit hc]
      cases hrun : runTo m codec limit p with
      | mk result d =>
        cases hfound : (List.range p).findSome? (m.halt? limit) with
        | some e =>
          obtain rfl : result = .error e := by simpa [hrun, hfound] using ih
          rfl
        | none =>
          obtain rfl : result = .ok () := by simpa [hrun, hfound] using ih
          -- nothing has stopped the run, so a batch is open here if there was a load before
          obtain ⟨rfl, -⟩ := runTo_eq_ok hrun
          by_cases hp : limit ≤ p
          · simp [hp, Model.halt?_of_le hc hp]
          · simp only [if_neg hp, Option.none_or, List.findSome?_cons, List.findSome?_nil,
              Model.halt?_of_lt hc (Nat.lt_of_not_le hp), ← epoch?_before_eq_none_iff m codec,
              step_result]
            split <;> rfl

end Decoder

namespace Model

variable {m : Model} {limit : Nat}

/-- A run fails with what first stops it, or ends with what all commands come to. -/
theorem run_result_eq (m : Model) (codec : Codec) (limit : Nat) :
    (Decoder.run m codec limit (.start m)).result = (m.failure? limit).elim
      (.ok ((Decoder.before m codec m.commands.size).finish m)) .error := by
  rw [Decoder.result_run, Decoder.runTo_result, failure?]
  cases (List.range m.commands.size).findSome? (m.halt? limit) <;> rfl

/-- A decode fails like its run, or gives what all commands come to. -/
theorem decode_result_eq (m : Model) (codec : Codec) (limit : Nat) :
    (m.decode codec limit).result = (m.failure? limit).elim
      (.ok (((Decoder.before m codec m.commands.size).finish m).decoded m)) .error := by
  rw [decode_result, run_result_eq]
  cases m.failure? limit <;> rfl

theorem run_eq_ok_iff (codec : Codec) {r : Decoder} :
    (Decoder.run m codec limit (.start m)).result = .ok r ↔ m.failure? limit = none ∧
      (Decoder.before m codec m.commands.size).finish m = r := by
  rw [run_result_eq]
  cases m.failure? limit <;> simp

theorem decode_eq_error_iff (codec : Codec) {e : DecodeError} :
    (m.decode codec limit).result = .error e ↔ m.failure? limit = some e := by
  rw [decode_result_eq]
  cases m.failure? limit <;> simp

theorem decode_eq_ok_iff (codec : Codec) {out : Decoded} :
    (m.decode codec limit).result = .ok out ↔ m.failure? limit = none ∧
      ((Decoder.before m codec m.commands.size).finish m).decoded m = out := by
  rw [decode_result_eq]
  cases m.failure? limit <;> simp

/-- Models with one display list fail alike. -/
theorem failure?_congr {m' : Model} (hcommands : m'.commands = m.commands) :
    m'.failure? limit = m.failure? limit := by
  have hload (q : Nat) : m'.load? q = m.load? q := by simp only [load?, hcommands]
  have hhalt (p : Nat) : m'.halt? limit p = m.halt? limit p := by
    simp only [halt?, hcommands, hload]
  rw [failure?, failure?, hcommands, funext hhalt]

/-- A decode fails at the first face if there is no load before and the limit is not reached
there; else it fails if there are more commands than the limit allows, and else it succeeds.
Nothing that a model holds besides its commands makes it fail, and no codec does. -/
theorem decode_fails_exactly (m : Model) (codec : Codec) (limit : Nat) :
    (∀ f code, (m.decode codec limit).result = .error (.strayFace f code) ↔
      m.Stray limit f code) ∧
    (∀ n, (m.decode codec limit).result = .error (.commandLimitExceeded n) ↔
      n = limit ∧ limit < m.commands.size ∧ ∀ f code, ¬ m.Stray limit f code) ∧
    ((∃ out, (m.decode codec limit).result = .ok out) ↔
      m.commands.size ≤ limit ∧ ∀ f code, ¬ m.Stray limit f code) ∧
    ∀ vertices textures textureData codec' e,
      (decode { m with vertices, textures, textureData } codec' limit).result = .error e ↔
        (m.decode codec limit).result = .error e := by
  refine ⟨fun f code => ?_, fun n => ?_, ?_, fun vertices textures textureData codec' e => ?_⟩
  · rw [decode_eq_error_iff, failure?_eq_stray_iff]
  · rw [decode_eq_error_iff, failure?_eq_exceeded_iff]
  · rw [← failure?_eq_none_iff]
    simp only [decode_eq_ok_iff, exists_and_left, exists_eq', and_true]
  · have hsame : failure? { m with vertices, textures, textureData } limit = m.failure? limit :=
      failure?_congr rfl
    rw [decode_eq_error_iff, decode_eq_error_iff, hsame]

end Model

end DisplayList

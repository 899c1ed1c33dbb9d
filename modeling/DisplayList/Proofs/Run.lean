import DisplayList.Proofs.Step
import Mathlib.Data.Nat.Init

/-!
# The decoders that a run passes through

A run that succeeds has carried out every command, each on what the commands before
it came to. `before m codec p` is the decoder that the command at `p` finds; what
holds of the first one and is kept by each step holds of all of them.
-/
namespace DisplayList.Decoder

variable (m : Model) (codec : Codec)

/-- What the commands before a position come to, carried out one after the other. -/
def before : Nat → Decoder
  | 0 => start m
  | p + 1 =>
    match m.commands[p]? with
    | none => before p
    | some c => ((before p).step m codec p c).2

@[simp] theorem before_zero : before m codec 0 = start m := rfl

variable {m codec} {p : Nat} {c : Command}

theorem before_succ (hc : m.commands[p]? = some c) :
    before m codec (p + 1) = ((before m codec p).step m codec p c).2 := by
  rw [before, hc]

theorem before_succ_of_load (hc : m.commands[p]? = some c) (ho : c.opcode? = some .loadVertices) :
    before m codec (p + 1) = (before m codec p).loadVertices m codec p c := by
  rw [before_succ hc]
  simp only [step_eq, ho]

theorem before_succ_of_none (hc : m.commands[p]? = none) :
    before m codec (p + 1) = before m codec p := by
  rw [before, hc]

/-- The command at a position takes the decoder before it to the one after it. -/
theorem effect_before (hc : m.commands[p]? = some c) :
    Effect m codec (before m codec p) p c (before m codec (p + 1)) := by
  rw [before_succ hc]
  exact step_effect m codec _ p c

/-- What relates each decoder to the one after any command relates every decoder of a run
to all later ones. -/
theorem before_mono {R : Decoder → Decoder → Prop} (hrefl : ∀ d, R d d)
    (htrans : ∀ {d e f}, R d e → R e f → R d f)
    (hstep : ∀ d position c, R d (d.step m codec position c).2) {q : Nat} (hpq : p ≤ q) :
    R (before m codec p) (before m codec q) := by
  induction q, hpq using Nat.le_induction with
  | base => exact hrefl _
  | succ q _ ih =>
    cases hc : m.commands[q]? with
    | none => rwa [before_succ_of_none hc]
    | some c =>
      rw [before_succ hc]
      exact htrans ih (hstep _ _ _)

/-- What relates the decoders at the start of two runs over one display list, and is kept when
both carry out the same command, relates them all along. -/
theorem before_lockstep {m' : Model} {codec' : Codec} {R : Decoder → Decoder → Prop}
    (hcommands : m'.commands = m.commands) (hstart : R (start m) (start m'))
    (hstep : ∀ q c d e, m.commands[q]? = some c → R d e →
      R (d.step m codec q c).2 (e.step m' codec' q c).2) (p : Nat) :
    R (before m codec p) (before m' codec' p) := by
  induction p with
  | zero => exact hstart
  | succ p ih =>
    cases hc : m.commands[p]? with
    | none => rwa [before_succ_of_none hc, before_succ_of_none (hcommands ▸ hc)]
    | some c =>
      rw [before_succ hc, before_succ (hcommands ▸ hc)]
      exact hstep p c _ _ hc ih

/-- Commands are carried out within the limit, one after the other. -/
theorem runFrom_concat (limit position : Nat) (cs : List Command) (c : Command) (d : Decoder) :
    runFrom m codec limit position (cs ++ [c]) d =
      match runFrom m codec limit position cs d with
      | (.error e, d) => (.error e, d)
      | (.ok (), d) =>
        if limit ≤ position + cs.length then (.error (.commandLimitExceeded limit), d)
        else d.step m codec (position + cs.length) c := by
  induction cs generalizing position d with
  | nil =>
    simp only [List.nil_append, runFrom_cons, runFrom_nil, List.length_nil, Nat.add_zero]
    split
    · rfl
    · split <;> simp_all
  | cons a cs ih =>
    simp only [List.cons_append, runFrom_cons, List.length_cons]
    split
    · rfl
    · split
      · rfl
      · rw [ih, show position + 1 + cs.length = position + (cs.length + 1) by omega]

variable (m codec) in
/-- The run over the commands before a position: whether it succeeds and where it ends. -/
def runTo (limit p : Nat) : Except DecodeError Unit × Decoder :=
  runFrom m codec limit 0 (m.commands.toList.take p) (start m)

/-- One more command is carried out if those before it were and the limit is not reached. -/
theorem runTo_succ (limit : Nat) (hc : m.commands[p]? = some c) :
    runTo m codec limit (p + 1) =
      match runTo m codec limit p with
      | (.error e, d) => (.error e, d)
      | (.ok (), d) =>
        if limit ≤ p then (.error (.commandLimitExceeded limit), d)
        else d.step m codec p c := by
  have hp : p < m.commands.size := (Array.getElem?_eq_some_iff.mp hc).1
  have hcp : m.commands.toList[p]? = some c := by simpa using hc
  have hlen : (m.commands.toList.take p).length = p := by simp; omega
  rw [runTo, List.take_add_one, hcp, Option.toList_some, runFrom_concat, hlen, Nat.zero_add]
  rfl

theorem runTo_succ_of_none (limit : Nat) (hc : m.commands[p]? = none) :
    runTo m codec limit (p + 1) = runTo m codec limit p := by
  have hp : m.commands.toList.length ≤ p := by simpa using hc
  rw [runTo, runTo, List.take_of_length_le (by omega), List.take_of_length_le hp]

/-- A run up to a position that succeeds has carried out each command before it. -/
theorem runTo_eq_ok {limit : Nat} {d : Decoder} (h : runTo m codec limit p = (.ok (), d)) :
    d = before m codec p ∧ ∀ q c, q < p → m.commands[q]? = some c →
      q < limit ∧ ((before m codec q).step m codec q c).1 = .ok () := by
  induction p generalizing d with
  | zero =>
    simp only [runTo, List.take_zero, runFrom_nil, Prod.mk.injEq, true_and] at h
    exact ⟨h.symm, fun q c hq => by omega⟩
  | succ p ih =>
    cases hc : m.commands[p]? with
    | none =>
      rw [runTo_succ_of_none limit hc] at h
      obtain ⟨hd, hsteps⟩ := ih h
      refine ⟨by rw [before_succ_of_none hc, hd], fun q c hq hqc => hsteps q c ?_ hqc⟩
      have hp : m.commands.size ≤ p := by simpa using hc
      have hq' : q < m.commands.size := (Array.getElem?_eq_some_iff.mp hqc).1
      omega
    | some c =>
      rw [runTo_succ limit hc] at h
      split at h
      · cases h
      · rename_i d' hd'
        obtain ⟨rfl, hsteps⟩ := ih hd'
        split at h
        · cases h
        · rename_i hlimit
          refine ⟨by rw [before_succ hc, h], fun q c' hq hqc => ?_⟩
          rcases Nat.lt_succ_iff_lt_or_eq.mp hq with hq | rfl
          · exact hsteps q c' hq hqc
          · obtain rfl : c = c' := Option.some.inj (hc.symm.trans hqc)
            exact ⟨by omega, by rw [h]⟩

theorem runTo_of_succ {limit : Nat} (hc : m.commands[p]? = some c)
    (h : (runTo m codec limit (p + 1)).1 = .ok ()) :
    runTo m codec limit p = (.ok (), before m codec p) ∧
      runTo m codec limit (p + 1) = (.ok (), before m codec (p + 1)) ∧
      ((before m codec p).step m codec p c).1 = .ok () := by
  have hafter : runTo m codec limit (p + 1) = (.ok (), (runTo m codec limit (p + 1)).2) :=
    Prod.ext h rfl
  obtain ⟨hd, hsteps⟩ := runTo_eq_ok hafter
  refine ⟨?_, by rw [hafter, hd], (hsteps p c (by omega) hc).2⟩
  rw [runTo_succ limit hc] at hafter
  cases hrun : runTo m codec limit p with
  | mk result d =>
    cases result with
    | ok u => rw [(runTo_eq_ok hrun).1]
    | error e => simp [hrun] at hafter

/-- A run over the whole model fails like the run up to its end, or ends with what all commands
came to, noted. -/
theorem result_run (limit : Nat) : (run m codec limit (start m)).result =
    (runTo m codec limit m.commands.size).1.map
      fun _ => (before m codec m.commands.size).finish m := by
  have hsize : m.commands.size = m.commands.toList.length := by simp
  have hwhole : runTo m codec limit m.commands.size =
      runFrom m codec limit 0 m.commands.toList (start m) := by
    rw [runTo, hsize, List.take_length]
  rw [run_eq, ← hwhole]
  cases hrun : runTo m codec limit m.commands.size with
  | mk result d =>
    cases result with
    | error e => rfl
    | ok u =>
      rw [(runTo_eq_ok hrun).1]
      rfl

/-- A successful run over the whole model ends with what all commands came to, noted. -/
theorem run_eq_ok {limit : Nat} {r : Decoder} (h : (run m codec limit (start m)).result = .ok r) :
    r = (before m codec m.commands.size).finish m ∧ ∀ q c, m.commands[q]? = some c →
      q < limit ∧ ((before m codec q).step m codec q c).1 = .ok () := by
  rw [result_run] at h
  cases hrun : runTo m codec limit m.commands.size with
  | mk result d =>
    cases result with
    | error e =>
      rw [hrun] at h
      cases h
    | ok u =>
      obtain ⟨-, hsteps⟩ := runTo_eq_ok hrun
      rw [hrun] at h
      refine ⟨(Except.ok.inj h).symm, fun q c hc => hsteps q c ?_ hc⟩
      exact (Array.getElem?_eq_some_iff.mp hc).1

@[simp] theorem finish_recording (d : Decoder) : (d.finish m).recording = d.recording := rfl

@[simp] theorem finish_table (d : Decoder) : (d.finish m).table = d.table := rfl

@[simp] theorem finish_diagnostics (d : Decoder) :
    (d.finish m).diagnostics = d.diagnostics := by
  simp [finish]

end DisplayList.Decoder

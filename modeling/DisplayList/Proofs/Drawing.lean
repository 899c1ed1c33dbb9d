import DisplayList.Proofs.Recording
import DisplayList.Proofs.Step
import Mathlib.Data.List.Forall2

/-!
# Faces drawn from the window

A face is drawn if each of its slots names a vertex of the open batch; otherwise the
first slot that names none is reported. Since drawing leaves the window alone, the
faces of one command are settled independently of one another.
-/
namespace DisplayList

namespace Triangle

variable {f : α → Except ε β} {t : Triangle α}

theorem mapM_eq_ok_iff {u : Triangle β} : t.mapM f = .ok u ↔
    List.Forall₂ (fun x y => f x = .ok y) t.toList u.toList := by
  obtain ⟨a, b, c⟩ := t
  obtain ⟨x, y, z⟩ := u
  simp only [mapM, toList, bind, Except.bind, List.forall₂_cons, List.Forall₂.nil, and_true]
  cases f a <;> simp
  cases f b <;> simp
  cases f c <;> simp [pure, Except.pure]

/-- The failure is that of the first member that fails. -/
theorem mapM_eq_error_iff {e : ε} : t.mapM f = .error e ↔
    ∃ earlier x later, t.toList = earlier ++ x :: later ∧
      (∀ y ∈ earlier, ∃ z, f y = .ok z) ∧ f x = .error e := by
  obtain ⟨a, b, c⟩ := t
  simp only [mapM, toList, bind, Except.bind]
  constructor
  · intro h
    cases ha : f a with
    | error e' => exact ⟨[], a, [b, c], rfl, by simp, by simpa [ha] using h⟩
    | ok x =>
      cases hb : f b with
      | error e' => exact ⟨[a], b, [c], rfl, by simp [ha], by simpa [ha, hb] using h⟩
      | ok y =>
        cases hc : f c with
        | error e' => exact ⟨[a, b], c, [], rfl, by simp [ha, hb], by simpa [ha, hb, hc] using h⟩
        | ok z => simp [ha, hb, hc, pure, Except.pure] at h
  · intro h
    obtain ⟨earlier, x, later, hsplit, hok, herr⟩ := h
    rcases earlier with _ | ⟨a', _ | ⟨b', _ | ⟨c', rest⟩⟩⟩ <;>
      simp only [List.nil_append, List.cons_append, List.cons.injEq] at hsplit
    · obtain ⟨rfl, -⟩ := hsplit
      simp [herr]
    · obtain ⟨rfl, rfl, -⟩ := hsplit
      obtain ⟨y, hy⟩ := hok a (by simp)
      simp [hy, herr]
    · obtain ⟨rfl, rfl, rfl, -⟩ := hsplit
      obtain ⟨y, hy⟩ := hok a (by simp)
      obtain ⟨z, hz⟩ := hok b (by simp)
      simp [hy, hz, herr]
    · simp at hsplit

end Triangle

namespace VertexWindow

variable {w : VertexWindow} {epoch : UInt32} {s : Nat}

theorem resolve_eq_ok_iff {v : UInt32} :
    w.resolve epoch s = .ok v ↔ w.get? s = some ⟨v, epoch⟩ := by
  unfold resolve
  cases w.get? s with
  | none => simp
  | some entry =>
    obtain ⟨v', e⟩ := entry
    by_cases he : e = epoch <;> simp [he]

theorem resolve_eq_stale_iff :
    w.resolve epoch s = .error .stale ↔ ∃ entry, w.get? s = some entry ∧ entry.epoch ≠ epoch := by
  unfold resolve
  cases w.get? s with
  | none => simp
  | some entry => by_cases he : entry.epoch = epoch <;> simp [he]

theorem resolveTriangle_eq_ok_iff {slots : Triangle Nat} {vertices : Triangle UInt32} :
    w.resolveTriangle epoch slots = .ok vertices ↔
      List.Forall₂ (fun s v => w.resolve epoch s = .ok v) slots.toList vertices.toList := by
  have hmap (s : Nat) (v : UInt32) :
      (w.resolve epoch s).mapError (s, ·) = .ok v ↔ w.resolve epoch s = .ok v := by
    cases w.resolve epoch s <;> simp [Except.mapError]
  simp only [resolveTriangle, Triangle.mapM_eq_ok_iff, hmap]

/-- A vertex of a resolved face is held by one of the slots. -/
theorem exists_get?_of_resolveTriangle {slots : Triangle Nat} {vertices : Triangle UInt32}
    (h : w.resolveTriangle epoch slots = .ok vertices) {v : UInt32} (hv : v ∈ vertices.toList) :
    ∃ s, w.get? s = some ⟨v, epoch⟩ := by
  rw [resolveTriangle_eq_ok_iff] at h
  obtain ⟨i, hi, rfl⟩ := List.getElem_of_mem hv
  have hlen := h.length_eq
  exact ⟨_, resolve_eq_ok_iff.mp (h.get (by omega) hi)⟩

theorem toOption_eq_some_iff {ε α : Type} {x : Except ε α} {a : α} :
    x.toOption = some a ↔ x = .ok a := by
  cases x <;> simp [Except.toOption]

/-- A vertex of a face that is drawn is held by some slot. -/
theorem exists_get?_of_mem_drawn {faces : List (Triangle Nat)} {v : UInt32}
    (hv : v ∈ ((faces.map (w.resolveTriangle epoch)).filterMap
      Except.toOption).flatMap Triangle.toList) : ∃ s, w.get? s = some ⟨v, epoch⟩ := by
  obtain ⟨t, ht, hvt⟩ := List.mem_flatMap.mp hv
  obtain ⟨outcome, houtcome, hok⟩ := List.mem_filterMap.mp ht
  obtain ⟨slots, -, rfl⟩ := List.mem_map.mp houtcome
  exact exists_get?_of_resolveTriangle (toOption_eq_some_iff.mp hok) hvt

theorem resolveTriangle_eq_error_iff {slots : Triangle Nat} {fault : SlotFault} :
    w.resolveTriangle epoch slots = .error (s, fault) ↔
      ∃ earlier later, slots.toList = earlier ++ s :: later ∧
        (∀ x ∈ earlier, ∃ v, w.resolve epoch x = .ok v) ∧ w.resolve epoch s = .error fault := by
  have hok (s : Nat) : (∃ v, (w.resolve epoch s).mapError (s, ·) = .ok v) ↔
      ∃ v, w.resolve epoch s = .ok v := by
    cases w.resolve epoch s <;> simp [Except.mapError]
  have herror (x : Nat) : (w.resolve epoch x).mapError (x, ·) = .error (s, fault) ↔
      x = s ∧ w.resolve epoch s = .error fault := by
    by_cases hx : x = s
    · subst hx
      cases w.resolve epoch x <;> simp [Except.mapError]
    · cases w.resolve epoch x <;> simp [Except.mapError, hx]
  simp only [resolveTriangle, Triangle.mapM_eq_error_iff, hok, herror]
  constructor
  · intro h
    obtain ⟨earlier, x, later, hsplit, hearlier, rfl, hx⟩ := h
    exact ⟨earlier, later, hsplit, hearlier, hx⟩
  · intro h
    obtain ⟨earlier, later, hsplit, hearlier, hs⟩ := h
    exact ⟨earlier, s, later, hsplit, hearlier, rfl, hs⟩

end VertexWindow

namespace Decoder

variable (m : Model) (position : Nat) (epoch : UInt32)

/-- What is reported for a face: nothing if it is drawn. -/
def faceProblem? (position : Nat) :
    Except (Nat × SlotFault) (Triangle UInt32) → Option Diagnostic
  | .ok _ => none
  | .error (slot, fault) => some (.unresolvedSlot position slot fault)

variable {d : Decoder} {older : List Batch} {b : Batch}

/-- A face goes to the open batch or is reported, by what the window says of its slots. -/
theorem drawTriangle_spec (h : d.recording.batches.toList = older ++ [b])
    (slots : Triangle Nat) :
    ∃ b', (drawTriangle m position epoch d slots).recording.batches.toList = older ++ [b'] ∧
      b'.material = b.material ∧ b'.epoch = b.epoch ∧
      b'.vertices = b.vertices ++
        (d.state.window.resolveTriangle epoch slots).toOption.toList.flatMap Triangle.toList ∧
      (drawTriangle m position epoch d slots).diagnostics = d.diagnostics ++
        (faceProblem? position (d.state.window.resolveTriangle epoch slots)).toList := by
  cases hr : d.state.window.resolveTriangle epoch slots with
  | ok vertices =>
    rw [drawTriangle_of_ok m position hr]
    refine ⟨_, Recording.toList_addTriangle h _ _, rfl, rfl, ?_, ?_⟩
    · simp [Except.toOption]
    · simp [diagnostics, journal, faceProblem?]
  | error fault =>
    rw [drawTriangle_of_error m position hr]
    exact ⟨b, h, rfl, rfl, by simp [Except.toOption], by simp [faceProblem?]⟩

/-- The faces of a command go to the open batch, or are reported, each by what the window
says of its own slots. -/
theorem foldl_drawTriangle (h : d.recording.batches.toList = older ++ [b])
    (faces : List (Triangle Nat)) :
    ∃ b', (faces.foldl (drawTriangle m position epoch) d).recording.batches.toList =
        older ++ [b'] ∧ b'.material = b.material ∧ b'.epoch = b.epoch ∧
      b'.vertices = b.vertices ++ ((faces.map (d.state.window.resolveTriangle epoch)).filterMap
        Except.toOption).flatMap Triangle.toList ∧
      (faces.foldl (drawTriangle m position epoch) d).diagnostics = d.diagnostics ++
        (faces.map (d.state.window.resolveTriangle epoch)).filterMap (faceProblem? position) := by
  induction faces generalizing d b with
  | nil => exact ⟨b, by simp [h]⟩
  | cons slots faces ih =>
    obtain ⟨b₁, hlist₁, hmat₁, hepoch₁, hverts₁, hdiags₁⟩ :=
      drawTriangle_spec m position epoch h slots
    obtain ⟨b', hlist, hmat, hepoch, hverts, hdiags⟩ := ih hlist₁
    refine ⟨b', hlist, hmat.trans hmat₁, hepoch.trans hepoch₁, ?_, ?_⟩
    · rw [hverts, hverts₁, drawTriangle_state]
      cases hr : d.state.window.resolveTriangle epoch slots <;>
        simp [-List.filterMap_map, hr, List.filterMap_cons, Except.toOption]
    · rw [List.foldl_cons, hdiags, hdiags₁, drawTriangle_state]
      cases hr : d.state.window.resolveTriangle epoch slots <;>
        simp [-List.filterMap_map, hr, List.filterMap_cons, faceProblem?]

/-- What holds of a recording with an open batch, and still holds when a face out of the window
goes to that batch, holds when all faces of a command are drawn. -/
theorem foldl_drawTriangle_induction {m : Model} {position : Nat} {epoch : UInt32}
    {faces : List (Triangle Nat)} {P : Recording → Prop}
    (hopen : d.recording.epoch?.isSome) (hrecording : P d.recording)
    (hadd : ∀ r older b slots vertices, r.batches.toList = older ++ [b] →
      d.state.window.resolveTriangle epoch slots = .ok vertices →
      P r → P (r.addTriangle vertices (vertices.map fun v =>
        (Model.vertexAt m.vertices v.toNat).uv.scaleBy (d.table.ratio d.state.texture)))) :
    P (faces.foldl (drawTriangle m position epoch) d).recording := by
  induction faces generalizing d with
  | nil => exact hrecording
  | cons slots faces ih =>
    obtain ⟨_, he⟩ := Option.isSome_iff_exists.mp hopen
    obtain ⟨older, b, hb, -⟩ := (Recording.epoch?_eq_some_iff _).mp he
    cases hr : d.state.window.resolveTriangle epoch slots with
    | error fault =>
      rw [List.foldl_cons, drawTriangle_of_error m position hr]
      exact ih hopen hrecording hadd
    | ok vertices =>
      rw [List.foldl_cons, drawTriangle_of_ok m position hr]
      refine ih ?_ (hadd _ older b slots vertices hb hr hrecording) hadd
      simp [Recording.epoch?_addTriangle hb]

/-- What holds of every vertex in the window and in the recording still holds of every vertex in
the recording after a command. -/
theorem Effect.vertices_forall {m : Model} {codec : Codec} {position : Nat} {c : Command}
    {d' : Decoder} {P : UInt32 → Prop} (h : Effect m codec d position c d')
    (hwindow : ∀ s e, d.state.window.get? s = some e → P e.vertex)
    (hrecorded : ∀ b ∈ d.recording.batches.toList, ∀ v ∈ b.vertices, P v) :
    ∀ b ∈ d'.recording.batches.toList, ∀ v ∈ b.vertices, P v := by
  rcases h.window_cases with ⟨-, -, -, hr⟩ | ⟨-, rfl⟩ | ⟨-, epoch, he, rfl⟩
  · rwa [hr]
  · rw [loadVertices_recording]
    cases d.state.boundary? with
    | none => exact hrecorded
    | some boundary =>
      intro b hb v hv
      rw [Option.elim_some, Recording.toList_openBatch, List.mem_append] at hb
      rcases hb with hb | hb
      · exact hrecorded b hb v hv
      · rw [List.mem_singleton] at hb
        simp [hb, Batch.vertices, Batch.corners] at hv
  · obtain ⟨older, b, hb, -⟩ := (Recording.epoch?_eq_some_iff _).mp he
    obtain ⟨b', hb', -, -, hverts, -⟩ := foldl_drawTriangle m position epoch hb c.faces
    rw [hb']
    rw [hb] at hrecorded
    intro b₁ hb₁ v hv
    rw [List.mem_append, List.mem_singleton] at hb₁
    rcases hb₁ with hb₁ | rfl
    · exact hrecorded b₁ (List.mem_append_left _ hb₁) v hv
    · rw [hverts, List.mem_append] at hv
      rcases hv with hv | hv
      · exact hrecorded b (by simp) v hv
      · obtain ⟨slot, hslot⟩ := VertexWindow.exists_get?_of_mem_drawn hv
        exact hwindow _ _ hslot

end Decoder

end DisplayList

import DisplayList.Proofs.WindowLoad
import Mathlib.Algebra.Group.Nat.Defs

/-!
# What a load leaves in the window

Each slot that a load covers holds the vertex meant for it afterwards or is listed as skipped,
and none is both. An index beyond the greatest word is held at that word; no store reaches so
far, so this shows in what is listed and never in what a slot holds.
-/
namespace DisplayList

/-- The slot that was skipped. -/
def SkippedSlot.slot : SkippedSlot → Nat
  | overflow slot _ => slot
  | outOfWindow slot => slot

namespace VertexWindow

section Skip

variable {vertexCount s : Nat} {v v' : UInt32}

theorem slot_of_skip? {skip : SkippedSlot} (h : skip? vertexCount s v = some skip) :
    skip.slot = s := by
  unfold skip? at h
  split_ifs at h <;> cases h <;> rfl

theorem skip?_eq_overflow_iff {slot : Nat} : skip? vertexCount s v = some (.overflow slot v') ↔
    s = slot ∧ s < 32 ∧ vertexCount ≤ v.toNat ∧ v = v' := by
  unfold skip?
  split_ifs <;> grind

theorem skip?_eq_outOfWindow_iff {slot : Nat} :
    skip? vertexCount s v = some (.outOfWindow slot) ↔ s = slot ∧ 32 ≤ s := by
  unfold skip?
  split_ifs <;> simp <;> omega

/-- A slot of the window is filled exactly if it is not skipped. -/
theorem isSome_entryFor_iff (epoch : UInt32) (hs : s < 32) :
    (entryFor vertexCount epoch v).isSome ↔ skip? vertexCount s v = none := by
  unfold entryFor skip?
  split_ifs <;> simp
  omega

end Skip

variable (w : VertexWindow) (l : VertexLoad) (vertexCount : Nat) (epoch : UInt32)

/-- Whether the store has the vertex for a slot can be told from the index as it is held, as a store
has fewer vertices than there are words. -/
theorem nthFrom_lt_iff {vertexCount : Nat} (hcount : vertexCount < 2 ^ 32) (s : Nat) :
    (nthFrom l.base (s - l.start)).toNat < vertexCount ↔ l.vertexFor s < vertexCount := by
  rw [toNat_nthFrom, VertexLoad.vertexFor]
  omega

theorem mem_load_skipped_iff {skip : SkippedSlot} :
    skip ∈ (w.load l.start l.count l.base vertexCount epoch).2 ↔
      ∃ s, l.Covers s ∧ skip? vertexCount s (nthFrom l.base (s - l.start)) = some skip := by
  simp only [load_skipped, List.mem_filterMap, List.mem_range, VertexLoad.Covers]
  constructor
  · rintro ⟨i, hi, hskip⟩
    exact ⟨l.start + i, ⟨by omega, by omega⟩, by rwa [Nat.add_sub_cancel_left]⟩
  · rintro ⟨s, ⟨hle, hlt⟩, hskip⟩
    exact ⟨s - l.start, by omega, by rwa [Nat.add_sub_cancel' hle]⟩

theorem overflow_mem_load_iff {vertexCount : Nat} (hcount : vertexCount < 2 ^ 32) {s : Nat}
    {v : UInt32} : .overflow s v ∈ (w.load l.start l.count l.base vertexCount epoch).2 ↔
      s < 32 ∧ l.Covers s ∧ vertexCount ≤ l.vertexFor s ∧
        v.toNat = min (l.vertexFor s) (2 ^ 32 - 1) := by
  have hstore (s : Nat) : vertexCount ≤ (nthFrom l.base (s - l.start)).toNat ↔
      vertexCount ≤ l.vertexFor s := by
    rw [← Nat.not_lt, nthFrom_lt_iff l hcount, Nat.not_lt]
  simp only [mem_load_skipped_iff, skip?_eq_overflow_iff, hstore]
  constructor
  · rintro ⟨s', hin, rfl, hs, hle, rfl⟩
    exact ⟨hs, hin, hle, toNat_nthFrom _ _⟩
  · rintro ⟨hs, hin, hle, hv⟩
    exact ⟨s, hin, rfl, hs, hle, UInt32.toNat_inj.mp ((toNat_nthFrom _ _).trans hv.symm)⟩

theorem outOfWindow_mem_load_iff {s : Nat} :
    .outOfWindow s ∈ (w.load l.start l.count l.base vertexCount epoch).2 ↔
      32 ≤ s ∧ l.Covers s := by
  simp only [mem_load_skipped_iff, skip?_eq_outOfWindow_iff]
  constructor
  · rintro ⟨s', hin, rfl, hs⟩
    exact ⟨hs, hin⟩
  · rintro ⟨hs, hin⟩
    exact ⟨s, hin, rfl, hs⟩

/-- Skipped slots are listed from the lowest to the highest, each once. -/
theorem pairwise_load_skipped : (w.load l.start l.count l.base vertexCount epoch).2.Pairwise
    fun a b => a.slot < b.slot := by
  rw [load_skipped, List.pairwise_filterMap]
  refine List.pairwise_lt_range.imp fun {i j} hij a ha b hb => ?_
  rw [slot_of_skip? ha, slot_of_skip? hb]
  omega

/-- Each slot that a load covers holds a vertex afterwards or is listed. -/
theorem countP_add_length_load_skipped :
    ((List.range l.count).countP fun i =>
      ((w.load l.start l.count l.base vertexCount epoch).1.get? (l.start + i)).isSome) +
      (w.load l.start l.count l.base vertexCount epoch).2.length = l.count := by
  have hfilled : ∀ i < l.count,
      ((w.load l.start l.count l.base vertexCount epoch).1.get? (l.start + i)).isSome ↔
        skip? vertexCount (l.start + i) (nthFrom l.base i) = none := by
    intro i hi
    by_cases hs : l.start + i < 32
    · rw [get?_load, if_pos ⟨by omega, by omega, hs⟩, Nat.add_sub_cancel_left,
        isSome_entryFor_iff epoch hs]
    · rw [get?_of_le _ (by omega), skip?, if_pos (by omega)]
      simp
  have hcount : (List.range l.count).countP (fun i =>
        ((w.load l.start l.count l.base vertexCount epoch).1.get? (l.start + i)).isSome) =
      (List.range l.count).countP fun i =>
        ¬ (skip? vertexCount (l.start + i) (nthFrom l.base i)).isSome :=
    List.countP_congr fun i hi => by simpa using hfilled i (List.mem_range.mp hi)
  have hlength := List.length_eq_countP_add_countP
    (fun i => (skip? vertexCount (l.start + i) (nthFrom l.base i)).isSome) (l := List.range l.count)
  rw [List.length_range] at hlength
  rw [hcount, load_skipped, List.length_filterMap_eq_countP]
  omega

/-- What a load makes of a window, and what it lists, over a store of `vertexCount` vertices. -/
structure LoadsRange (w : VertexWindow) (l : VertexLoad) (vertexCount : Nat) (epoch : UInt32)
    (loaded : VertexWindow) (skipped : List SkippedSlot) : Prop where
  outside : ∀ s < 32, ¬ l.Covers s → loaded.get? s = w.get? s
  filled : ∀ s < 32, l.Covers s → l.vertexFor s < vertexCount →
    ∃ e, loaded.get? s = some e ∧ e.vertex.toNat = l.vertexFor s ∧ e.epoch = epoch
  cleared : ∀ s < 32, l.Covers s → vertexCount ≤ l.vertexFor s → loaded.get? s = none
  ascending : skipped.Pairwise fun a b => a.slot < b.slot
  overflow : ∀ s v, .overflow s v ∈ skipped ↔ s < 32 ∧ l.Covers s ∧
    vertexCount ≤ l.vertexFor s ∧ v.toNat = min (l.vertexFor s) (2 ^ 32 - 1)
  outOfWindow : ∀ s, .outOfWindow s ∈ skipped ↔ 32 ≤ s ∧ l.Covers s
  accounted : ((List.range l.count).countP fun i => (loaded.get? (l.start + i)).isSome) +
    skipped.length = l.count

/-- A load fills or clears each slot of its range on its own account and lists those it does not
fill, whatever the window held, wherever the range begins and ends and however far the indices
go. -/
theorem load_slot_by_slot (hcount : vertexCount < 2 ^ 32) :
    w.LoadsRange l vertexCount epoch (w.load l.start l.count l.base vertexCount epoch).1
      (w.load l.start l.count l.base vertexCount epoch).2 := by
  refine ⟨fun s hs hout => ?_, fun s hs hin hstore => ?_, fun s hs hin hstore => ?_,
    w.pairwise_load_skipped l vertexCount epoch,
    fun s v => w.overflow_mem_load_iff l epoch hcount,
    fun s => w.outOfWindow_mem_load_iff l vertexCount epoch,
    w.countP_add_length_load_skipped l vertexCount epoch⟩
  · rw [get?_load, if_neg fun h => hout ⟨h.1, h.2.1⟩]
  · refine ⟨⟨nthFrom l.base (s - l.start), epoch⟩, ?_, ?_, rfl⟩
    · rw [get?_load, if_pos ⟨hin.1, hin.2, hs⟩, entryFor,
        if_pos ((nthFrom_lt_iff l hcount s).mpr hstore)]
    · -- what is below the number of vertices is below the greatest word as well
      rw [toNat_nthFrom]
      unfold VertexLoad.vertexFor at hstore ⊢
      omega
  · rw [get?_load, if_pos ⟨hin.1, hin.2, hs⟩, entryFor,
      if_neg fun h => Nat.not_lt.mpr hstore ((nthFrom_lt_iff l hcount s).mp h)]

/-- A load over the end of the window with indices beyond the greatest word, into slots some of
which hold vertices already. -/
def sampleEdge : VertexWindow := (empty.load 28 4 7 100 1).1

theorem load_slot_by_slot_edge :
    4294967295 < 2 ^ 32 ∧ sampleEdge.get? 31 = some ⟨10, 1⟩ ∧
    sampleEdge.LoadsRange ⟨29, 5, 4294967294⟩ 4294967295 2
      (sampleEdge.load 29 5 4294967294 4294967295 2).1
      (sampleEdge.load 29 5 4294967294 4294967295 2).2 ∧
    (sampleEdge.load 29 5 4294967294 4294967295 2).2 =
      [.overflow 30 4294967295, .overflow 31 4294967295, .outOfWindow 32, .outOfWindow 33] :=
  ⟨by decide, by decide, sampleEdge.load_slot_by_slot ⟨29, 5, 4294967294⟩ 4294967295 2 (by decide),
    by decide⟩

end VertexWindow

end DisplayList

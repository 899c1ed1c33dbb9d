import DisplayList.Window
import DisplayList.Command
import Mathlib.Tactic.SplitIfs

/-!
# A load, slot by slot

A load writes the slots of its range that the window has, each with its own vertex, and
leaves all others alone. What it lists as skipped is decided slot by slot as well, so
neither depends on the order in which the slots are loaded.
-/
namespace DisplayList

namespace VertexWindow

variable (w : VertexWindow) (start count : Nat) (base : UInt32) (vertexCount : Nat)
  (epoch : UInt32)

@[simp] theorem get?_of_le {s : Nat} (h : 32 ≤ s) : w.get? s = none := by
  simp [get?, h]

theorem toNat_nthFrom (n : Nat) : (nthFrom base n).toNat = min (base.toNat + n) 4294967295 := by
  simp only [nthFrom_eq, UInt32.toNat_ofNat']
  omega

/-- What a slot holds after a vertex was loaded into it. -/
def entryFor (vertex : UInt32) : Option WindowEntry :=
  if vertex.toNat < vertexCount then some ⟨vertex, epoch⟩ else none

/-- What a load leaves in a slot of its range. -/
theorem entryFor_eq_some_iff {vertex : UInt32} {e : WindowEntry} :
    entryFor vertexCount epoch vertex = some e ↔
      vertex.toNat < vertexCount ∧ e.vertex = vertex ∧ e.epoch = epoch := by
  obtain ⟨v, ep⟩ := e
  unfold entryFor
  split
  · rename_i h
    simp [h, eq_comm]
  · rename_i h
    simp [h]

/-- Whether a slot is skipped when a vertex is loaded into it, and why. -/
def skip? (slot : Nat) (vertex : UInt32) : Option SkippedSlot :=
  if 32 ≤ slot then some (.outOfWindow slot)
  else if vertex.toNat < vertexCount then none
  else some (.overflow slot vertex)

theorem get?_loadSlot (slot : Nat) (vertex : UInt32) (s : Nat) :
    (w.loadSlot vertexCount epoch slot vertex).1.get? s =
      if s = slot ∧ slot < 32 then entryFor vertexCount epoch vertex else w.get? s := by
  unfold loadSlot entryFor
  split_ifs <;> simp_all [get?_put]
  omega

theorem loadSlot_skip (slot : Nat) (vertex : UInt32) :
    (w.loadSlot vertexCount epoch slot vertex).2 = skip? vertexCount slot vertex := by
  unfold loadSlot skip?
  split_ifs <;> rfl

/-- The slots loaded so far hold their vertices, and those skipped so far are listed. -/
theorem foldl_loadNext (n : Nat) :
    (∀ s, ((List.range n).foldl (loadNext start base vertexCount epoch) (w, #[])).1.get? s =
      if start ≤ s ∧ s < start + n ∧ s < 32 then
        entryFor vertexCount epoch (nthFrom base (s - start))
      else w.get? s) ∧
    ((List.range n).foldl (loadNext start base vertexCount epoch) (w, #[])).2.toList =
      (List.range n).filterMap fun i => skip? vertexCount (start + i) (nthFrom base i) := by
  induction n with
  | zero =>
    refine ⟨fun s => ?_, rfl⟩
    rw [if_neg (by omega)]
    rfl
  | succ n ih =>
    obtain ⟨hget, hskip⟩ := ih
    simp only [List.range_succ, List.foldl_append, List.foldl_cons, List.foldl_nil, loadNext_eq,
      get?_loadSlot, loadSlot_skip, List.filterMap_append]
    refine ⟨fun s => ?_, ?_⟩
    · by_cases hs : s = start + n ∧ start + n < 32
      · obtain ⟨rfl, hs⟩ := hs
        rw [if_pos ⟨rfl, hs⟩, if_pos (by omega), Nat.add_sub_cancel_left]
      · rw [if_neg hs, hget]
        by_cases hr : start ≤ s ∧ s < start + n ∧ s < 32
        · rw [if_pos hr, if_pos (by omega)]
        · rw [if_neg hr, if_neg (by omega)]
    · cases hk : skip? vertexCount (start + n) (nthFrom base n) <;> simp [hk, hskip]

/-- After a load each slot of the range holds its vertex, if the store has it; every other
slot is as it was. -/
theorem get?_load (s : Nat) : (w.load start count base vertexCount epoch).1.get? s =
    if start ≤ s ∧ s < start + count ∧ s < 32 then
      entryFor vertexCount epoch (nthFrom base (s - start))
    else w.get? s := by
  rw [load_eq]
  exact (foldl_loadNext w start base vertexCount epoch count).1 s

/-- A load lists the slots that it leaves without a vertex, in order. -/
theorem load_skipped : (w.load start count base vertexCount epoch).2 =
    (List.range count).filterMap fun i => skip? vertexCount (start + i) (nthFrom base i) := by
  rw [load_eq]
  exact (foldl_loadNext w start base vertexCount epoch count).2

end VertexWindow

namespace VertexLoad

/-- Whether a slot is in the range of a load. -/
def Covers (l : VertexLoad) (s : Nat) : Prop := l.start ≤ s ∧ s < l.start + l.count

/-- The vertex that a load has for a slot of its range. -/
def vertexFor (l : VertexLoad) (s : Nat) : Nat := l.base.toNat + (s - l.start)

end VertexLoad

namespace Command

theorem vertexLoad_base_lt (c : Command) : c.vertexLoad.base.toNat < 1048576 := by
  have h : bitField c.operand.toNat 0 24 < 16777216 := bitField_lt ..
  simp only [vertexLoad, UInt32.toNat_ofNat']
  omega

theorem toNat_nthFrom_vertexLoad (c : Command) {s : Nat} (h : c.vertexLoad.Covers s) :
    (VertexWindow.nthFrom c.vertexLoad.base (s - c.vertexLoad.start)).toNat =
      c.vertexLoad.vertexFor s := by
  have hbase := c.vertexLoad_base_lt
  have hcount := c.vertexLoad_count_lt
  obtain ⟨hle, hlt⟩ := h
  rw [VertexWindow.toNat_nthFrom, VertexLoad.vertexFor]
  omega

end Command

end DisplayList

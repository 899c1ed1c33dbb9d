/-!
# Lines of text

Text is written line by line, each line ended by a line feed. A line that stands for
one entry of a list may itself hold line feeds; what comes after them is then indented,
so that no entry begins where another one goes on.
-/
namespace DisplayList

/-- Lines as text, each ended by a line feed. -/
def joinLines (lines : List String) : String :=
  String.join (lines.map (· ++ "\n"))

/-- A line feed with `width` spaces after it; any other character as it is. -/
def indentAfter (width : Nat) (c : Char) : List Char :=
  if c = '\n' then c :: List.replicate width ' ' else [c]

/-- Text with `width` spaces in front of every line but the first. -/
def hang (width : Nat) (text : String) : String :=
  String.ofList (text.toList.flatMap (indentAfter width))

@[simp] theorem toList_joinLines (lines : List String) :
    (joinLines lines).toList = lines.flatMap fun line => line.toList ++ ['\n'] := by
  simp [joinLines, String.toList_join, List.flatMap_map]

@[simp] theorem toList_hang (width : Nat) (text : String) :
    (hang width text).toList = text.toList.flatMap (indentAfter width) := by
  simp [hang]

/-- Text of one line is left as it is. -/
theorem hang_of_not_mem (width : Nat) (text : String) (h : '\n' ∉ text.toList) :
    hang width text = text := by
  have one : ∀ c ∈ text.toList, indentAfter width c = [c] := by
    intro c hc
    have : c ≠ '\n' := fun e => h (e ▸ hc)
    simp [indentAfter, this]
  rw [← String.toList_inj, toList_hang, List.flatMap_def, List.map_congr_left one,
    ← List.flatMap_def, List.flatMap_singleton']

end DisplayList

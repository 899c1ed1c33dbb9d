import DisplayList.Files.Tree
import Mathlib.Data.List.DropRight

/-!
# Files side by side

The directory of a path is found by its text: the parts up to the last one that leads anywhere,
and then a new name behind them. Whatever idle parts are lost on the way, the new path is followed
down to the very directory that the old one is followed down to, so the two files lie side by side.
-/
namespace DisplayList

namespace Path

variable {p : Path} {above : List String} {name : String}

/-! ### Parts -/

theorem cut_eq_splitOn (cs : List Char) : cut cs = cs.splitOn '/' := by
  induction cs with
  | nil => rfl
  | cons c cs ih =>
    rw [cut, ih, List.splitOn_cons_eq_if_modifyHead]
    by_cases hc : c = '/'
    · simp [hc]
    · rw [if_neg hc, if_neg (by simpa using hc)]
      cases hrest : cs.splitOn '/' with
      | nil => exact absurd hrest (List.splitOn_ne_nil _ _)
      | cons part parts => rfl

theorem parts_eq (p : Path) : p.parts = (p.text.toList.splitOn '/').map String.ofList := by
  rw [parts, cut_eq_splitOn]

theorem not_mem_of_mem_splitOn {cs : List Char} {sep : Char} :
    ∀ part ∈ cs.splitOn sep, sep ∉ part := by
  induction cs with
  | nil => simp
  | cons c cs ih =>
    rw [List.splitOn_cons_eq_if_modifyHead]
    cases hrest : cs.splitOn sep with
    | nil => exact absurd hrest (List.splitOn_ne_nil _ _)
    | cons part parts =>
      rw [hrest, List.forall_mem_cons] at ih
      split
      · simpa [List.forall_mem_cons] using ih
      · rename_i hc
        have hne : sep ≠ c := fun h => hc (by simp [h])
        simpa [List.forall_mem_cons, hne] using ih

theorem not_mem_of_mem_parts {part : String} (h : part ∈ p.parts) : '/' ∉ part.toList := by
  rw [parts_eq, List.mem_map] at h
  obtain ⟨cs, hcs, rfl⟩ := h
  rw [String.toList_ofList]
  exact not_mem_of_mem_splitOn cs hcs

theorem parts_intercalate {ps : List String} (hne : ps ≠ []) (h : ∀ part ∈ ps, '/' ∉ part.toList) :
    (Path.mk ("/".intercalate ps)).parts = ps := by
  have hsplit : (['/'].intercalate (ps.map String.toList)).splitOn '/' = ps.map String.toList :=
    List.splitOn_intercalate '/' (by simpa using h) (by simpa using hne)
  rw [parts_eq, String.toList_intercalate]
  show (List.splitOn '/' (['/'].intercalate (ps.map String.toList))).map String.ofList = ps
  rw [hsplit, List.map_map]
  simp [Function.comp_def]

/-- Parts up to the last that leads anywhere, and idle ones behind it. -/
theorem exists_idle_of_trim (ps : List String) :
    ∃ idles, ps = trim ps ++ idles ∧ ∀ part ∈ idles, isIdle part :=
  ⟨ps.rtakeWhile isIdle, List.rdropWhile_append_rtakeWhile.symm, fun _ => List.mem_rtakeWhile_imp⟩

theorem not_isIdle_of_getLast?_trim {ps : List String} {part : String}
    (h : (trim ps).getLast? = some part) : ¬ isIdle part := by
  rw [trim, List.getLast?_reverse] at h
  have hhead := List.head?_dropWhile_not isIdle ps.reverse
  rw [h] at hhead
  simpa using hhead

theorem trim_concat (ps : List String) (hname : ¬ isIdle name) :
    trim (ps ++ [name]) = ps ++ [name] :=
  List.rdropWhile_concat_neg isIdle ps name hname

theorem parts_mk_of_not_mem {part : String} (h : '/' ∉ part.toList) :
    (Path.mk part).parts = [part] := by
  rw [parts_eq, List.splitOn_eq_singleton h, List.map_singleton, String.ofList_toList]

theorem parts_mk_append (text : String) {part : String} (h : '/' ∉ part.toList) :
    (Path.mk (text ++ "/" ++ part)).parts = (Path.mk text).parts ++ [part] := by
  have htext : (text ++ "/" ++ part).toList = text.toList ++ '/' :: part.toList := by simp
  rw [parts_eq, parts_eq, htext, List.splitOn_append_cons_self, List.map_append,
    List.splitOn_eq_singleton h, List.map_singleton, String.ofList_toList]

/-- A name put behind a directory that does not end in a slash is one more part. -/
theorem parts_join_of_getLast? {directory : Path} (h : directory.parts.getLast? ≠ some "")
    (hname : '/' ∉ name.toList) : (directory.join name).parts = directory.parts ++ [name] := by
  have hempty : directory.text ≠ "" := by
    intro htext
    exact h (by rw [parts_eq, htext]; rfl)
  have hslash : directory.text.toList.getLast? ≠ some '/' := by
    intro hlast
    obtain ⟨before, hbefore⟩ := List.getLast?_eq_some_iff.mp hlast
    have htext : directory.text.toList = before ++ '/' :: [] := hbefore
    exact h (by rw [parts_eq, htext, List.splitOn_append_cons_self]; simp)
  rw [join, if_neg hempty, if_neg hslash, parts_mk_append _ hname]

/-! ### Names in paths -/

/-- The path of another name in the directory of a path. -/
def beside (p : Path) (other : String) : Path :=
  (p.parent?.getD ⟨""⟩).join other

/-- A path leads to a name, through the parts above it. -/
structure LeadsTo (p : Path) (above : List String) (name : String) : Prop where
  parts_eq : p.parts = above ++ [name]
  not_idle : ¬ isIdle name

theorem lead_cases (p : Path) : p.lead = [] ∨ p.lead = [""] ∨ p.lead = ["."] := by
  unfold lead
  split <;> simp

namespace LeadsTo

theorem ne_empty (h : p.LeadsTo above name) : name ≠ "" :=
  fun hname => h.not_idle (by simp [isIdle, hname])

theorem ne_dot (h : p.LeadsTo above name) : name ≠ "." :=
  fun hname => h.not_idle (by simp [isIdle, hname])

theorem text_ne (h : p.LeadsTo above name) : p.text ≠ "" := by
  intro htext
  have hparts := h.parts_eq
  rw [Path.parts_eq, htext] at hparts
  have hlast := congrArg List.getLast? hparts
  rw [List.getLast?_concat] at hlast
  exact h.ne_empty (Option.some.inj hlast).symm

/-- There is nothing to drop behind the name. -/
theorem dropWhile_eq (h : p.LeadsTo above name) :
    p.parts.reverse.dropWhile (fun part => decide (part = "")) = name :: above.reverse := by
  rw [h.parts_eq, List.reverse_concat, List.dropWhile_cons_of_neg (by simpa using h.ne_empty)]

theorem of_dropWhile
    (h : p.parts.reverse.dropWhile (fun part => decide (part = "")) = name :: above)
    (hslash : p.parts.getLast? ≠ some "") (hdot : name ≠ ".") : p.LeadsTo above.reverse name := by
  have hname : name ≠ "" := by
    have hhead := List.head?_dropWhile_not (fun part => decide (part = "")) p.parts.reverse
    simpa [h] using hhead
  refine ⟨?_, by simp [isIdle, hname, hdot]⟩
  rw [← List.head?_reverse] at hslash
  rw [← List.reverse_cons, ← h, ← List.reverse_inj, List.reverse_reverse]
  cases hparts : p.parts.reverse with
  | nil => rfl
  | cons part rest =>
    have hpart : part ≠ "" := by simpa [hparts] using hslash
    rw [List.dropWhile_cons_of_neg (by simpa using hpart)]

theorem lead_eq (h : p.LeadsTo above name) : p.lead = (above.take 1).filter isIdle := by
  have hdot := h.ne_dot
  unfold lead
  rw [h.parts_eq]
  cases above with
  | nil =>
    split
    · simp_all
    · simp_all
    · rfl
  | cons part rest =>
    split
    · rename_i hparts
      obtain rfl : part = "" := (List.cons.inj hparts).1
      rfl
    · rename_i hparts
      obtain rfl : part = "." := (List.cons.inj hparts).1
      rfl
    · rename_i hempty hdots
      have hidle : isIdle part = false := by
        simp only [isIdle, Bool.or_eq_false_iff, decide_eq_false_iff_not]
        constructor
        · rintro rfl
          obtain ⟨next, more, hnext⟩ := List.exists_cons_of_ne_nil (l := rest ++ [name]) (by simp)
          exact hempty next more (by rw [List.cons_append, hnext])
        · rintro rfl
          exact hdots _ rfl
      simp [hidle]

theorem lead_append (h : p.LeadsTo above name) : p.lead ++ above.drop p.lead.length = above := by
  rw [h.lead_eq]
  cases above with
  | nil => rfl
  | cons part rest =>
    by_cases hpart : isIdle part <;> simp [hpart]

/-- What is left when the idle parts behind are lost begins as before. -/
theorem lead_trim (h : p.LeadsTo above name) :
    ((p.lead ++ trim (above.drop p.lead.length)).take 1).filter isIdle = p.lead := by
  rcases p.lead_cases with hl | hl | hl
  · obtain ⟨idles, hidles, -⟩ := exists_idle_of_trim above
    have hnone : (above.take 1).filter isIdle = [] := h.lead_eq.symm.trans hl
    rw [hl, List.length_nil, List.drop_zero, List.nil_append]
    cases htrim : trim above with
    | nil => rfl
    | cons part rest =>
      rw [hidles, htrim] at hnone
      exact hnone
  · simp [hl, isIdle]
  · simp [hl, isIdle]

theorem steps_eq (h : p.LeadsTo above name) : p.steps = above.drop p.lead.length ++ [name] := by
  have hle : p.lead.length ≤ above.length := by
    rw [← congrArg List.length h.lead_append, List.length_append]
    exact Nat.le_add_right _ _
  rw [steps, h.parts_eq, List.drop_append_of_le_length hle, trim_concat _ h.not_idle]

theorem name?_eq (h : p.LeadsTo above name) (hname : name ≠ "..") : p.name? = some name := by
  rw [name?, h.steps_eq, List.getLast?_concat]
  simp [hname]

theorem parent?_eq (h : p.LeadsTo above name) :
    p.parent? = some (ofSteps p.lead (trim (above.drop p.lead.length))) := by
  rw [parent?, h.steps_eq, if_neg (by simp), List.dropLast_concat]

/-- A path beside another one goes through the parts above that, short of idle ones. -/
theorem parts_beside (h : p.LeadsTo above name) {other : String} (hother : '/' ∉ other.toList) :
    (p.beside other).parts = p.lead ++ trim (above.drop p.lead.length) ++ [other] := by
  rw [beside, h.parent?_eq, Option.getD_some]
  obtain ⟨idles, hidles, -⟩ := exists_idle_of_trim (above.drop p.lead.length)
  have hlead := h.lead_append
  have hlast : ∀ part, (trim (above.drop p.lead.length)).getLast? = some part → part ≠ "" :=
    fun part hpart hempty => not_isIdle_of_getLast?_trim hpart (by rw [hempty]; rfl)
  generalize trim (above.drop p.lead.length) = body at hidles hlast ⊢
  have hparts : ∀ part ∈ p.lead ++ body, '/' ∉ part.toList := by
    intro part hpart
    have hmem : part ∈ p.parts := by
      rw [h.parts_eq, ← hlead, hidles, ← List.append_assoc]
      exact List.mem_append_left _ (List.mem_append_left _ hpart)
    exact not_mem_of_mem_parts hmem
  by_cases hroot : body = [] ∧ p.lead = [""]
  · obtain ⟨rfl, hroot⟩ := hroot
    rw [hroot]
    exact parts_mk_append "" hother
  · rw [ofSteps, if_neg hroot]
    by_cases hnil : p.lead ++ body = []
    · rw [hnil]
      exact parts_mk_of_not_mem hother
    · have hmk := parts_intercalate hnil hparts
      rw [parts_join_of_getLast? ?_ hother, hmk]
      rw [hmk]
      cases hbody : body.getLast? with
      | some part =>
        rw [List.getLast?_append_of_ne_nil _ (by rintro rfl; cases hbody), hbody]
        simpa using hlast part hbody
      | none =>
        obtain rfl : body = [] := List.getLast?_eq_none_iff.mp hbody
        rcases p.lead_cases with hl | hl | hl
        · exact absurd hl (by simpa using hnil)
        · exact absurd ⟨rfl, hl⟩ hroot
        · simp [hl]

end LeadsTo

end Path

namespace FileTree

variable {t : FileTree} {p : Path} {above : List String} {name other : String} {l : Location}

/-- What it takes to follow a path down to a name: the path and the name are not too long, and the
parts above the name lead down to a directory. -/
theorem locate_eq_entry_iff : t.locate p = .ok (.entry l name false) ↔
    '\x00' ∉ p.text.toList ∧ p.text.utf8ByteSize ≤ longestPath ∧
    name.utf8ByteSize ≤ longestName ∧ ∃ above, p.LeadsTo above name ∧ name ≠ ".." ∧
      above.foldlM t.enter (t.start p) = .ok l := by
  simp only [locate]
  constructor
  · intro h
    split at h
    · cases h
    rename_i hzero
    split at h
    · cases h
    rename_i hlong
    split at h
    · cases h
    split at h
    · cases h
    rename_i last above hdrop
    cases hfold : above.reverse.foldlM t.enter (t.start p) with
    | error e => simp [hfold, bind, Except.bind] at h
    | ok location =>
      simp only [hfold, bind, Except.bind] at h
      split at h
      · split at h <;> cases h
      rename_i hname
      rw [not_or] at hname
      split at h
      · cases h
      rename_i hlongName
      obtain ⟨rfl, rfl, hslash⟩ : location = l ∧ last = name ∧ p.parts.getLast? ≠ some "" := by
        simpa [pure, Except.pure] using h
      exact ⟨by simpa using hzero, Nat.le_of_not_lt hlong, Nat.le_of_not_lt hlongName,
        above.reverse, .of_dropWhile hdrop hslash hname.1, hname.2, hfold⟩
  · rintro ⟨hzero, hlong, hlongName, above, hleads, hup, hfold⟩
    have hname : ¬ (name = "." ∨ name = "..") := not_or.mpr ⟨hleads.ne_dot, hup⟩
    rw [if_neg (by simpa using hzero), if_neg (Nat.not_lt.mpr hlong), if_neg hleads.text_ne,
      hleads.dropWhile_eq]
    simp only [List.reverse_reverse, hfold, bind, Except.bind]
    rw [if_neg hname]
    simp [Nat.not_lt.mpr hlongName, pure, Except.pure, hleads.parts_eq, hleads.ne_empty]

/-- Idle parts lead nowhere. -/
theorem foldlM_enter_idle {idles : List String} (h : ∀ part ∈ idles, Path.isIdle part)
    (l : Location) : idles.foldlM t.enter l = .ok l := by
  induction idles with
  | nil => rfl
  | cons part rest ih =>
    rw [List.forall_mem_cons] at h
    rw [List.foldlM_cons, enter, if_pos h.1]
    exact ih h.2

/-- A path beside another one leads into the same directory. -/
theorem locate_beside (h : t.locate p = .ok (.entry l name false)) {l' : Location} {name' : String}
    (hother : '/' ∉ other.toList) (h' : t.locate (p.beside other) = .ok (.entry l' name' false)) :
    l' = l ∧ name' = other := by
  obtain ⟨-, -, -, above, hleads, -, hfold⟩ := locate_eq_entry_iff.mp h
  obtain ⟨-, -, -, above', hleads', -, hfold'⟩ := locate_eq_entry_iff.mp h'
  obtain ⟨idles, hidles, hidle⟩ := Path.exists_idle_of_trim (above.drop p.lead.length)
  have hparts := hleads.parts_beside hother
  rw [hleads'.parts_eq] at hparts
  obtain ⟨habove, hname⟩ := List.append_inj' hparts rfl
  obtain rfl : name' = other := by simpa using hname
  refine ⟨?_, rfl⟩
  have hstart : t.start (p.beside name') = t.start p := by
    rw [start, start, hleads'.lead_eq, habove, hleads.lead_trim]
  have hall : above.foldlM t.enter (t.start p) = above'.foldlM t.enter (t.start p) := by
    rw [← hleads.lead_append, hidles, ← List.append_assoc, ← habove, List.foldlM_append]
    cases above'.foldlM t.enter (t.start p) with
    | error e => rfl
    | ok location => exact foldlM_enter_idle hidle location
  rw [hstart, ← hall, hfold] at hfold'
  exact (Except.ok.inj hfold').symm

end FileTree

end DisplayList

import DisplayList.Files.ImageSaver
import DisplayList.Proofs.Siblings
import Mathlib.Data.List.Nodup

/-!
# What is written stays written

A file is put at one location of the tree, which is nowhere else than where the path leads
afterwards: no directory is made or taken away. So files that are put one after the other at
different locations can all be read back in the end. Whoever puts them does not matter, as long as
nothing but the file at the path is touched; of images no more than this is asked, and that their
files can be read.
-/
namespace DisplayList

namespace FileTree

variable {t t' : FileTree} {p : Path} {content : Bytes} {l x : Location}

/-- The location of the file that is written at a path. -/
def place? (t : FileTree) (p : Path) : Option Location :=
  match t.locate p with
  | .ok (.entry l name false) => some (l ++ [name])
  | _ => none

theorem place?_eq_some_iff : t.place? p = some x ↔
    ∃ l name, t.locate p = .ok (.entry l name false) ∧ l ++ [name] = x := by
  unfold place?
  split
  · rename_i l name hlocate
    simp [hlocate]
  · rename_i hlocate
    simp only [reduceCtorEq, false_iff]
    rintro ⟨l, name, hok, -⟩
    exact hlocate l name hok

theorem ne_nil_of_place? (h : t.place? p = some x) : x ≠ [] := by
  obtain ⟨l, name, -, rfl⟩ := place?_eq_some_iff.mp h
  simp

theorem write_eq_ok_iff : t.write p content = .ok t' ↔
    ∃ x, t.place? p = some x ∧ t.get? x ≠ some .directory ∧ t' = t.set x (.file content) := by
  unfold write place?
  cases hlocate : t.locate p with
  | error e => simp [bind, Except.bind]
  | ok target =>
    match target with
    | .directory l => simp [bind, Except.bind, throw, throwThe, MonadExceptOf.throw]
    | .entry l name true => simp [bind, Except.bind, throw, throwThe, MonadExceptOf.throw]
    | .entry l name false =>
      cases hnode : t.get? (l ++ [name]) with
      | none => simp [hnode, bind, Except.bind, pure, Except.pure, eq_comm]
      | some node =>
        cases node with
        | directory => simp [hnode, bind, Except.bind, throw, throwThe, MonadExceptOf.throw]
        | file old => simp [hnode, bind, Except.bind, pure, Except.pure, eq_comm]

theorem read_eq_ok_iff : t.read p = .ok content ↔
    ∃ x, t.place? p = some x ∧ t.get? x = some (.file content) := by
  constructor
  · intro h
    unfold read at h
    cases hlocate : t.locate p with
    | error e => simp [hlocate, bind, Except.bind] at h
    | ok target =>
      match target with
      | .directory l => simp [hlocate, bind, Except.bind, throw, throwThe, MonadExceptOf.throw] at h
      | .entry l name slash =>
        cases hnode : t.get? (l ++ [name]) with
        | none =>
          simp [hlocate, hnode, bind, Except.bind, throw, throwThe, MonadExceptOf.throw] at h
        | some node =>
          cases node with
          | directory =>
            simp [hlocate, hnode, bind, Except.bind, throw, throwThe, MonadExceptOf.throw] at h
          | file found =>
            cases slash with
            | true =>
              simp [hlocate, hnode, bind, Except.bind, throw, throwThe, MonadExceptOf.throw] at h
            | false =>
              obtain rfl : found = content := by
                simpa [hlocate, hnode, bind, Except.bind, pure, Except.pure] using h
              exact ⟨l ++ [name], place?_eq_some_iff.mpr ⟨l, name, hlocate, rfl⟩, hnode⟩
  · rintro ⟨x, hplace, hx⟩
    obtain ⟨l, name, hlocate, rfl⟩ := place?_eq_some_iff.mp hplace
    simp [read, hlocate, hx, bind, Except.bind, pure, Except.pure]

/-- There is a file at a path: in which directory it is, under which name, and what is in it. -/
structure Holds (t : FileTree) (p : Path) (directory : Location) (name : String)
    (content : Bytes) : Prop where
  located : t.locate p = .ok (.entry directory name false)
  content_eq : t.read p = .ok content

/-! ### Directories -/

/-- Directories stay directories, and paths begin where they did. -/
structure KeepsDirectories (t t' : FileTree) : Prop where
  home_eq : t'.home = t.home
  directory : ∀ l, t.get? l = some .directory → t'.get? l = some .directory

namespace KeepsDirectories

protected theorem refl (t : FileTree) : t.KeepsDirectories t :=
  ⟨rfl, fun _ h => h⟩

protected theorem trans {u : FileTree} (h : t.KeepsDirectories t') (h' : t'.KeepsDirectories u) :
    t.KeepsDirectories u :=
  ⟨h'.home_eq.trans h.home_eq, fun l hl => h'.directory l (h.directory l hl)⟩

theorem start_eq (h : t.KeepsDirectories t') (p : Path) : t'.start p = t.start p := by
  rw [start, start, h.home_eq]

/-- A step that can be made can still be made. -/
theorem enter (h : t.KeepsDirectories t') {part : String} (hok : t.enter l part = .ok x) :
    t'.enter l part = .ok x := by
  unfold FileTree.enter at hok ⊢
  split_ifs at hok ⊢ with hidle hup hlong
  · exact hok
  · exact hok
  · cases hnode : t.get? (l ++ [part]) with
    | none => simp [hnode] at hok
    | some node =>
      cases node with
      | file content => simp [hnode] at hok
      | directory =>
        rw [hnode] at hok
        rw [h.directory _ hnode]
        exact hok

theorem foldlM_enter (h : t.KeepsDirectories t') {parts : List String}
    (hok : parts.foldlM t.enter l = .ok x) : parts.foldlM t'.enter l = .ok x := by
  induction parts generalizing l with
  | nil => exact hok
  | cons part parts ih =>
    rw [List.foldlM_cons] at hok ⊢
    cases hstep : t.enter l part with
    | error e => simp [hstep, bind, Except.bind] at hok
    | ok next =>
      rw [hstep] at hok
      rw [h.enter hstep]
      exact ih hok

/-- A path that leads to a name still leads to it. -/
theorem locate (h : t.KeepsDirectories t') {name : String}
    (hok : t.locate p = .ok (.entry l name false)) : t'.locate p = .ok (.entry l name false) := by
  obtain ⟨hzero, hlong, hlongName, above, hleads, hup, hfold⟩ := locate_eq_entry_iff.mp hok
  rw [← h.start_eq] at hfold
  exact locate_eq_entry_iff.mpr
    ⟨hzero, hlong, hlongName, above, hleads, hup, h.foldlM_enter hfold⟩

theorem place? (h : t.KeepsDirectories t') (hplace : t.place? p = some x) :
    t'.place? p = some x := by
  obtain ⟨l, name, hlocate, hx⟩ := place?_eq_some_iff.mp hplace
  exact place?_eq_some_iff.mpr ⟨l, name, h.locate hlocate, hx⟩

end KeepsDirectories

/-! ### One file -/

/-- Nothing is another one than before, unless it is the file at a path. -/
structure TouchesOnly (t t' : FileTree) (p : Path) : Prop where
  home_eq : t'.home = t.home
  changed : ∀ l, t'.get? l ≠ t.get? l → t.place? p = some l ∧ t.get? l ≠ some .directory

/-- There is a file at a path now, and nothing else has been touched. -/
structure Puts (t t' : FileTree) (p : Path) (content : Bytes) : Prop
    extends t.TouchesOnly t' p where
  read_eq : t'.read p = .ok content

theorem TouchesOnly.keepsDirectories (h : t.TouchesOnly t' p) : t.KeepsDirectories t' := by
  refine ⟨h.home_eq, fun l hl => ?_⟩
  by_contra hne
  exact (h.changed l fun hsame => hne (hsame.trans hl)).2 hl

protected theorem TouchesOnly.refl (t : FileTree) (p : Path) : t.TouchesOnly t p :=
  ⟨rfl, fun _ hne => absurd rfl hne⟩

theorem puts_write (h : t.write p content = .ok t') : t.Puts t' p content := by
  obtain ⟨x, hplace, hfile, rfl⟩ := write_eq_ok_iff.mp h
  have hx := ne_nil_of_place? hplace
  have htouches : t.TouchesOnly (t.set x (.file content)) p := by
    refine ⟨rfl, fun l hne => ?_⟩
    have hl : l ≠ [] := by
      rintro rfl
      exact hne rfl
    rw [get?_set _ _ _ _ hl] at hne
    obtain rfl : l = x := by
      by_contra hother
      exact hne (if_neg hother)
    exact ⟨hplace, hfile⟩
  refine ⟨htouches, read_eq_ok_iff.mpr ⟨x, htouches.keepsDirectories.place? hplace, ?_⟩⟩
  rw [get?_set _ _ _ _ hx, if_pos rfl]

/-! ### Files one after the other -/

/-- Files are put one after the other. -/
inductive PutsAll : FileTree → List (Path × Bytes) → FileTree → Prop
  | nil (t : FileTree) : PutsAll t [] t
  | cons {t u t' : FileTree} {file : Path × Bytes} {files : List (Path × Bytes)} :
      t.Puts u file.1 file.2 → PutsAll u files t' → PutsAll t (file :: files) t'

namespace PutsAll

variable {files : List (Path × Bytes)}

theorem keepsDirectories (h : t.PutsAll files t') : t.KeepsDirectories t' := by
  induction h with
  | nil t => exact .refl t
  | cons hput _ ih => exact hput.keepsDirectories.trans ih

/-- Every file has a location in the end, which is where it was put. -/
theorem exists_place? (h : t.PutsAll files t') :
    ∀ file ∈ files, ∃ x, t'.place? file.1 = some x := by
  induction h with
  | nil => simp
  | cons hput hrest ih =>
    obtain ⟨x, hplace, -⟩ := read_eq_ok_iff.mp hput.read_eq
    rw [List.forall_mem_cons]
    exact ⟨⟨x, hrest.keepsDirectories.place? hplace⟩, ih⟩

/-- What is at no location of the files stays as it is. -/
theorem get?_eq (h : t.PutsAll files t') (hother : ∀ file ∈ files, t'.place? file.1 ≠ some x) :
    t'.get? x = t.get? x := by
  induction h with
  | nil => rfl
  | cons hput hrest ih =>
    rw [List.forall_mem_cons] at hother
    rw [ih hother.2]
    by_contra hne
    obtain ⟨hplace, -⟩ := hput.changed x hne
    exact hother.1
      (hrest.keepsDirectories.place? (hput.keepsDirectories.place? hplace))

/-- Files at different locations can be read back in the end. -/
theorem read_eq (h : t.PutsAll files t')
    (hnodup : (files.map fun file => t'.place? file.1).Nodup) :
    ∀ file ∈ files, t'.read file.1 = .ok file.2 := by
  induction h with
  | nil => simp
  | cons hput hrest ih =>
    rw [List.map_cons, List.nodup_cons] at hnodup
    obtain ⟨x, hplace, hx⟩ := read_eq_ok_iff.mp hput.read_eq
    have hfinal := hrest.keepsDirectories.place? hplace
    rw [List.forall_mem_cons]
    refine ⟨read_eq_ok_iff.mpr ⟨x, hfinal, ?_⟩, ih hnodup.2⟩
    rw [hrest.get?_eq fun other hother hsame => ?_, hx]
    exact hnodup.1 (List.mem_map.mpr ⟨other, hother, hsame.trans hfinal.symm⟩)

end PutsAll

end FileTree

/-! ### Images -/

/-- What is asked of whatever saves images, and of a reader of the files that it leaves. -/
structure ImageSaver.Reliable (save : ImageSaver) (load? : Bytes → Option PixelBuffer) :
    Prop where
  /-- No more than the file at the path is touched, also where it fails. -/
  touchesOnly : ∀ (t : FileTree) p image, t.TouchesOnly (save t p image).2 p
  /-- Where it succeeds there is a file at the path. -/
  leavesFile : ∀ t p image, (save t p image).1 = .ok () →
    ∃ content, (save t p image).2.read p = .ok content
  /-- The image can be read out of that file. -/
  loads : ∀ t p image content, (save t p image).1 = .ok () →
    (save t p image).2.read p = .ok content → load? content = some image

end DisplayList

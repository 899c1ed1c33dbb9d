import DisplayList.Bytes
import DisplayList.Files.Path

/-!
# File trees

Files and directories below a root, with a working directory among them. The operations
are those of the operating system, with its reasons for refusing. What an operation does
not name it leaves as it is: there are no links in a tree, through which it could write to
another place.
-/
namespace DisplayList

/-- Why the operating system refuses an operation. -/
inductive FileError
  | notFound
  | alreadyExists
  | notDirectory
  | isDirectory
  | nameTooLong
  | zeroInName
  /-- Any other reason, in words. -/
  | other (reason : String)
  deriving DecidableEq, Repr

namespace FileError

def message : FileError → String
  | notFound => "No such file or directory (os error 2)"
  | alreadyExists => "File exists (os error 17)"
  | notDirectory => "Not a directory (os error 20)"
  | isDirectory => "Is a directory (os error 21)"
  | nameTooLong => "File name too long (os error 36)"
  | zeroInName => "file name contained an unexpected NUL byte"
  | other reason => reason

end FileError

/-- What stands at a place in a tree. -/
inductive FileNode
  | directory
  | file (content : Bytes)
  deriving DecidableEq, Repr

/-- Where something is: the names on the way down from the root. -/
abbrev Location := List String

/-- What stands where, the root left out, and where paths begin. -/
structure FileTree where
  nodes : List (Location × FileNode)
  /-- The working directory. -/
  home : Location
  deriving DecidableEq, Repr

namespace FileTree

/-- A working directory with nothing in it, and the directories above it. -/
def ofHome (home : Location) : FileTree where
  nodes := (List.range home.length).map fun n => (home.take (n + 1), .directory)
  home := home

/-- What is at a location; the root is always a directory. -/
def get? (t : FileTree) (location : Location) : Option FileNode :=
  if location = [] then some .directory
  else (t.nodes.find? fun n => n.1 = location).map Prod.snd

/-- Puts something at a location in place of what was there. -/
def set (t : FileTree) (location : Location) (node : FileNode) : FileTree :=
  { t with nodes := (location, node) :: t.nodes.filter fun n => n.1 ≠ location }

/-- The most bytes in a name. -/
def longestName : Nat := 255

/-- The most bytes in a path. -/
def longestPath : Nat := 4095

/-- Where a path begins: at the root or in the working directory. -/
def start (t : FileTree) (p : Path) : Location :=
  if p.lead = [""] then [] else t.home

/-- One step on the way through directories. Above the root is the root again. -/
def enter (t : FileTree) (location : Location) (part : String) : Except FileError Location :=
  if Path.isIdle part then .ok location
  else if part = ".." then .ok location.dropLast
  else if longestName < part.utf8ByteSize then .error .nameTooLong
  else
    match t.get? (location ++ [part]) with
    | some .directory => .ok (location ++ [part])
    | some (.file _) => .error .notDirectory
    | none => .error .notFound

/-- What a path comes to: a directory that is there in any case, or a name in one, which
has to be that of a directory if a slash follows it. -/
inductive Target
  | directory (location : Location)
  | entry (directory : Location) (name : String) (slash : Bool)
  deriving DecidableEq, Repr

/-- Follows a path down to its last name. -/
def locate (t : FileTree) (p : Path) : Except FileError Target := do
  if p.text.toList.contains '\x00' then
    throw .zeroInName
  if longestPath < p.text.utf8ByteSize then
    throw .nameTooLong
  if p.text = "" then
    throw .notFound
  match p.parts.reverse.dropWhile (· = "") with
  | [] => return .directory (t.start p)
  | name :: above =>
    let location ← above.reverse.foldlM t.enter (t.start p)
    if name = "." ∨ name = ".." then
      return .directory (← t.enter location name)
    if longestName < name.utf8ByteSize then
      throw .nameTooLong
    return .entry location name (p.parts.getLast? = some "")

/-- The content of a file. -/
def read (t : FileTree) (p : Path) : Except FileError Bytes := do
  match ← t.locate p with
  | .directory _ => throw .isDirectory
  | .entry location name slash =>
    match t.get? (location ++ [name]) with
    | none => throw .notFound
    | some .directory => throw .isDirectory
    | some (.file content) => if slash then throw .notDirectory else return content

/-- Writes a file, new or in place of an old one. -/
def write (t : FileTree) (p : Path) (content : Bytes) : Except FileError FileTree := do
  match ← t.locate p with
  | .directory _ | .entry _ _ true => throw .isDirectory
  | .entry location name false =>
    match t.get? (location ++ [name]) with
    | some .directory => throw .isDirectory
    | _ => return t.set (location ++ [name]) (.file content)

/-- Whether a path leads to a directory. -/
def isDirectory (t : FileTree) (p : Path) : Bool :=
  match t.locate p with
  | .ok (.directory _) => true
  | .ok (.entry location name _) => t.get? (location ++ [name]) = some .directory
  | .error _ => false

/-- Makes one directory in another that is there. -/
def makeDirectory (t : FileTree) (p : Path) : Except FileError FileTree := do
  match ← t.locate p with
  | .directory _ => throw .alreadyExists
  | .entry location name _ =>
    match t.get? (location ++ [name]) with
    | some _ => throw .alreadyExists
    | none => return t.set (location ++ [name]) .directory

/-- Makes the first of some directories, and before it those after it as far as they
are wanting. One that is there already will do. -/
def makeFirst : List Path → FileTree → Except FileError Unit × FileTree
  | [], t => (.ok (), t)
  | p :: above, t =>
    match t.makeDirectory p with
    | .ok made => (.ok (), made)
    | .error .notFound =>
      match makeFirst above t with
      | (.error e, t) => (.error e, t)
      | (.ok (), t) =>
        match t.makeDirectory p with
        | .ok made => (.ok (), made)
        | .error e => (if t.isDirectory p then .ok () else .error e, t)
    | .error e => (if t.isDirectory p then .ok () else .error e, t)

/-- Makes a directory and all those above it that are wanting. -/
def makeDirectories (t : FileTree) (p : Path) : Except FileError Unit × FileTree :=
  makeFirst p.ancestors t

/-- Paths begin where they did. -/
@[simp] theorem start_set (t : FileTree) (location : Location) (node : FileNode) (p : Path) :
    (t.set location node).start p = t.start p :=
  rfl

theorem get?_set (t : FileTree) (location : Location) (node : FileNode) (l : Location)
    (h : l ≠ []) :
    (t.set location node).get? l = if l = location then some node else t.get? l := by
  by_cases e : l = location
  · subst e
    simp [get?, set, h]
  · have other : ∀ n : Location × FileNode, (n.1 ≠ location ∧ n.1 = l) = (n.1 = l) := by
      intro n
      exact propext ⟨And.right, fun hn => ⟨fun hl => e (hn.symm.trans hl), hn⟩⟩
    simp [get?, set, h, e, Ne.symm e, List.find?_filter, other]

end FileTree

end DisplayList

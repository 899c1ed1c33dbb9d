/-!
# Paths

A path is text whose parts stand between slashes. Parts that are empty or a single dot
lead nowhere, except that a path may begin at the root or with a dot. Names that are not
text in UTF-8 are left out here. So a path that names a kind of file has a stem, and what
stands in for a stem that cannot be read is never taken.
-/
namespace DisplayList

/-- A path as it was given. -/
structure Path where
  text : String
  deriving DecidableEq, Repr

namespace Path

/-- Cuts text at every slash; there is one part more than there are slashes. -/
def cut : List Char → List (List Char)
  | [] => [[]]
  | c :: rest =>
    if c = '/' then [] :: cut rest
    else
      match cut rest with
      | [] => [[c]]
      | part :: parts => (c :: part) :: parts

/-- All parts between slashes, empty ones too. -/
def parts (p : Path) : List String :=
  (cut p.text.toList).map String.ofList

/-- What a path begins with: the root, a dot, or neither. -/
def lead (p : Path) : List String :=
  match p.parts with
  | "" :: _ :: _ => [""]
  | "." :: _ => ["."]
  | _ => []

/-- Parts that lead nowhere. -/
def isIdle (part : String) : Bool :=
  part = "" || part = "."

/-- Drops the parts at the end that lead nowhere. -/
def trim (parts : List String) : List String :=
  (parts.reverse.dropWhile isIdle).reverse

/-- The parts after the beginning, up to the last one that leads anywhere. -/
def steps (p : Path) : List String :=
  trim (p.parts.drop p.lead.length)

/-- The path of a beginning and of steps from there. -/
def ofSteps (lead steps : List String) : Path :=
  if steps = [] ∧ lead = [""] then ⟨"/"⟩ else ⟨"/".intercalate (lead ++ steps)⟩

/-- The path without its last step; a dot alone has the empty path above it, and the
root has none. -/
def parent? (p : Path) : Option Path :=
  if p.steps = [] then if p.lead = ["."] then some ⟨""⟩ else none
  else some (ofSteps p.lead (trim p.steps.dropLast))

/-- The last step, if it is a name. -/
def name? (p : Path) : Option String :=
  p.steps.getLast?.filter (· ≠ "..")

/-- Parts a name at its last dot. A name without a dot, or with none but the first
character, has no extension. -/
def splitName (name : String) : String × Option String :=
  let backward := name.toList.reverse
  let extension := (backward.takeWhile (· ≠ '.')).reverse
  match backward.dropWhile (· ≠ '.') with
  | _ :: c :: stem => (String.ofList (c :: stem).reverse, some (String.ofList extension))
  | _ => (name, none)

/-- The name without its extension. -/
def stem? (p : Path) : Option String :=
  p.name?.map fun name => (splitName name).1

/-- The part of the name after its last dot. -/
def extension? (p : Path) : Option String :=
  p.name?.bind fun name => (splitName name).2

/-- The path of a name in a directory. -/
def join (directory : Path) (name : String) : Path :=
  if directory.text = "" then ⟨name⟩
  else if directory.text.toList.getLast? = some '/' then ⟨directory.text ++ name⟩
  else ⟨directory.text ++ "/" ++ name⟩

/-- At most `n` paths: a path and those above it, short of the empty one. -/
def ancestorsUpTo : Nat → Path → List Path
  | 0, _ => []
  | n + 1, p => if p.text = "" then [] else p :: p.parent?.elim [] (ancestorsUpTo n)

/-- A path and all those above it, from the bottom up, short of the empty one. -/
def ancestors (p : Path) : List Path :=
  ancestorsUpTo (p.parts.length + 1) p

end Path

end DisplayList

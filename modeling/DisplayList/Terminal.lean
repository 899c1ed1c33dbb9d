/-!
# Control sequences of terminals

Text for a terminal may hold sequences that are not shown but tell the terminal
something: a colour, a title, a place for the cursor. Each begins with an escape
character. Where text goes elsewhere, what would be shown of it is all that is written.

A sequence that has an end of its own (a title, a device's string) goes on until that
end is met, over any number of lines; the others end at a line's end too.
-/
namespace DisplayList.Terminal

/-- What a character is read as a part of. -/
inductive Mode
  /-- Text to be shown. -/
  | text
  /-- A sequence of which only the escape character is read. -/
  | escape
  /-- A sequence that selects, among others, a character set. -/
  | selection
  /-- A sequence with parameters, for colours and the cursor. -/
  | control
  /-- A device's string, before its parameters. -/
  | deviceStart
  /-- A device's string, in its parameters. -/
  | deviceParameter
  /-- A device's string, behind its parameters. -/
  | deviceIntermediate
  /-- What a string holds, up to its terminator. -/
  | string
  /-- A command to the system around the terminal, such as a title for its window. -/
  | command
  deriving DecidableEq, Repr

/-- Whether a character lies between two codes, both included. -/
def within (first last : Nat) (c : Char) : Bool :=
  first ≤ c.toNat && c.toNat ≤ last

/-- Whether a character moves on in a line or ends it, and so is shown in text. -/
def isBreak (c : Char) : Bool :=
  c = '\t' || c = '\n' || c = '\x0c' || c = '\r'

/-- Whether the terminator of a string is among the bytes of a character. -/
def closes (c : Char) : Bool :=
  (String.utf8EncodeChar c).contains 0x9c

namespace Mode

/-- How a sequence goes on behind its escape character. -/
def afterEscape (c : Char) : Mode :=
  if isBreak c then text
  else if within 0x20 0x2f c then selection
  else if c = '[' then control
  else if c = ']' then command
  else if c = 'P' then deviceStart
  else if c = 'X' || c = '^' || c = '_' then string
  else if within 0x30 0x7e c then text
  else escape

/-- What the character behind this one is a part of. An escape character begins anew
wherever it stands, and either cancelling character ends whatever it stands in. -/
def next (m : Mode) (c : Char) : Mode :=
  if c = '\x1b' then escape
  else if c = '\x18' || c = '\x1a' then text
  else
    match m with
    | text => text
    | escape => afterEscape c
    | selection => if isBreak c || within 0x30 0x7e c then text else selection
    | control => if isBreak c || within 0x40 0x7e c then text else control
    | deviceStart =>
      if within 0x20 0x2f c then deviceIntermediate
      else if within 0x30 0x3f c then deviceParameter
      else if within 0x40 0x7e c then string
      else deviceStart
    | deviceParameter =>
      if within 0x20 0x2f c then deviceIntermediate
      else if within 0x3c 0x7e c then string
      else deviceParameter
    | deviceIntermediate => if within 0x30 0x7e c then string else deviceIntermediate
    | string => if closes c then text else string
    | command => if c = '\x07' then text else command

/-- Whether a character is shown: one of the text that is no control character, and a
break in the text or in a sequence that it ends. -/
def shows (m : Mode) (c : Char) : Bool :=
  match m with
  | text => isBreak c || (0x20 ≤ c.toNat && c.toNat ≠ 0x7f)
  | escape | selection | control => isBreak c
  | _ => false

end Mode

/-- The characters that are shown of those that are left, where reading stands. -/
def shownFrom (m : Mode) : List Char → List Char
  | [] => []
  | c :: rest =>
    if m.shows c then c :: shownFrom (m.next c) rest else shownFrom (m.next c) rest

/-- What is shown of a text. -/
def strip (text : String) : String :=
  String.ofList (shownFrom .text text.toList)

@[simp] theorem toList_strip (text : String) :
    (strip text).toList = shownFrom .text text.toList := by
  simp [strip]

/-- A character that is shown in the text leaves reading there. -/
theorem next_text_of_shows (c : Char) (h : Mode.text.shows c = true) :
    Mode.text.next c = .text := by
  have : c ≠ '\x1b' := by rintro rfl; revert h; decide
  simp [Mode.next, this]

/-- Text in which every character is shown is left as it is. -/
theorem shownFrom_text_of_all (l : List Char) (h : ∀ c ∈ l, Mode.text.shows c = true) :
    shownFrom .text l = l := by
  induction l with
  | nil => rfl
  | cons c rest ih =>
    have hc := h c (by simp)
    rw [shownFrom, if_pos hc, next_text_of_shows c hc,
      ih fun d hd => h d (by simp [hd])]

/-- Nothing is put in or moved: what is shown is a part of the text, in its order. -/
theorem shownFrom_sublist (m : Mode) (l : List Char) : (shownFrom m l).Sublist l := by
  induction l generalizing m with
  | nil => exact .slnil
  | cons c rest ih =>
    rw [shownFrom]
    split
    · exact (ih _).cons_cons c
    · exact (ih _).cons c

end DisplayList.Terminal

import DisplayList.Numeral

/-!
# Recoverable problems

What a decode reports and goes on after. Commands, batches, textures and slots are
named by their positions.
-/
namespace DisplayList

/-- Why a slot names no vertex: nothing was loaded into it, or what was loaded
belongs to an earlier batch. -/
inductive SlotFault
  | unset
  | stale
  deriving DecidableEq, Repr

namespace SlotFault

def message : SlotFault → String
  | unset => "unset"
  | stale => "stale"

end SlotFault

/-- A problem and where it arose. -/
inductive Diagnostic
  /-- A slot was to hold a vertex past the end of the store. -/
  | indexOverflow (command slot : Nat) (vertex : UInt32)
  /-- A load reached past the last slot. -/
  | slotOutOfWindow (command slot : Nat)
  /-- A triangle was dropped because one of its slots names no vertex. -/
  | unresolvedSlot (command slot : Nat) (fault : SlotFault)
  /-- A batch starts below the vertices that earlier batches used. -/
  | nonMonotonicBatch (batch : Nat) (lowest offset : UInt32)
  /-- A palette to be loaded reaches past the texture data. -/
  | paletteOutOfRange (command texture : Nat)
  /-- A texture was bound that the model does not declare. -/
  | unknownTexture (command : Nat) (offset : UInt32)
  /-- No image could be made of a texture. -/
  | textureDecode (texture : Nat) (reason : String)
  deriving DecidableEq, Repr

namespace Diagnostic

/-- The kinds of problem, in the order in which reports list them. -/
inductive Kind
  | indexOverflow
  | slotOutOfWindow
  | unresolvedSlot
  | nonMonotonicBatch
  | paletteOutOfRange
  | unknownTexture
  | textureDecode
  deriving DecidableEq, Repr

namespace Kind

def all : List Kind :=
  [indexOverflow, slotOutOfWindow, unresolvedSlot, nonMonotonicBatch, paletteOutOfRange,
    unknownTexture, textureDecode]

/-- The kind as it is spelled in reports. -/
def name : Kind → String
  | indexOverflow => "IndexOverflow"
  | slotOutOfWindow => "SlotOutOfWindow"
  | unresolvedSlot => "UnresolvedSlot"
  | nonMonotonicBatch => "NonMonotonicBatch"
  | paletteOutOfRange => "PaletteOutOfRange"
  | unknownTexture => "UnknownTexture"
  | textureDecode => "TextureDecode"

end Kind

/-- The kind of a problem. -/
def kind : Diagnostic → Kind
  | indexOverflow .. => .indexOverflow
  | slotOutOfWindow .. => .slotOutOfWindow
  | unresolvedSlot .. => .unresolvedSlot
  | nonMonotonicBatch .. => .nonMonotonicBatch
  | paletteOutOfRange .. => .paletteOutOfRange
  | unknownTexture .. => .unknownTexture
  | textureDecode .. => .textureDecode

def message : Diagnostic → String
  | indexOverflow command slot vertex =>
    s!"command {command}: global index {vertex} for slot {slot} exceeds vertex array"
  | slotOutOfWindow command slot =>
    s!"command {command}: slot {slot} outside vertex window"
  | unresolvedSlot command slot fault =>
    s!"command {command}: slot {slot} is {fault.message}, triangle dropped"
  | nonMonotonicBatch batch lowest offset =>
    s!"batch {batch}: minimum index {lowest} below offset {offset}, using minimum"
  | paletteOutOfRange command texture =>
    s!"command {command}: palette for texture {texture} exceeds texture data"
  | unknownTexture command offset =>
    s!"command {command}: no texture at offset " ++ Numeral.hexadecimal 1 offset.toNat ++
      ", descriptor added"
  | textureDecode texture reason => s!"texture {texture}: {reason}"

/-- How many of the problems are of one kind. -/
def countOf (ds : List Diagnostic) (k : Kind) : Nat :=
  ds.countP fun d => d.kind = k

end Diagnostic

end DisplayList

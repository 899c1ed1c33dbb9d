import DisplayList.Command
import DisplayList.Window

/-!
# The drawing state

What commands set for those that follow: the texture and its scales and wrap modes,
the window, and whether the material has changed since the last load. A change
only takes effect at the next load, which then begins a new epoch.
-/
namespace DisplayList

/-- What the next batch is drawn with after a change of material. -/
inductive Boundary
  | texture
  | null
  deriving DecidableEq, Repr

/-- What earlier commands have set. -/
structure DrawState where
  /-- The texture bound last. -/
  texture : Nat
  textureChanged : Bool
  nullSelected : Bool
  sScale : Float32
  tScale : Float32
  wrapS : WrapMode
  wrapT : WrapMode
  epoch : UInt32
  window : VertexWindow
  deriving DecidableEq, Repr

namespace DrawState

/-- Before the first command; what is drawn before any texture is bound has none. -/
def initial : DrawState where
  texture := 0
  textureChanged := false
  nullSelected := true
  sScale := 0
  tScale := 0
  wrapS := .wrap
  wrapT := .wrap
  epoch := 0
  window := .empty

/-- Drawing goes on without a texture. -/
def selectNull (s : DrawState) : DrawState :=
  { s with textureChanged := false, nullSelected := true }

/-- Drawing goes on with the texture at `index`. -/
def bindTexture (s : DrawState) (index : Nat) : DrawState :=
  { s with texture := index, textureChanged := true, nullSelected := false }

/-- The texture is to be taken as changed, whichever was selected. -/
def markTexture (s : DrawState) : DrawState :=
  { s with textureChanged := true }

/-- Sets both scales from an operand. -/
def setScales (s : DrawState) (operand : UInt32) : DrawState :=
  { s with sScale := (Command.scales operand).1, tScale := (Command.scales operand).2 }

/-- Takes the wrap modes of a tile. -/
def applyTile (s : DrawState) (tile : Tile) : DrawState :=
  { s with wrapS := .ofBits tile.modeS, wrapT := .ofBits tile.modeT }

/-- The change that is due; a new texture goes before none. -/
def boundary? (s : DrawState) : Option Boundary :=
  if s.textureChanged then some .texture
  else if s.nullSelected then some .null
  else none

/-- Settles the change that is due, which begins an epoch. -/
def settleBy {M : Type → Type} [Monad M] (ar : Arithmetic M) (s : DrawState) : M DrawState := do
  let epoch ← (if s.boundary?.isSome then ar.addWords s.epoch 1 else pure s.epoch)
  return { s with textureChanged := false, nullSelected := false, epoch }

def settle (s : DrawState) : DrawState :=
  Id.run (s.settleBy .plain)

theorem settle_eq (s : DrawState) : s.settle =
    { s with
      textureChanged := false
      nullSelected := false
      epoch := if s.boundary?.isSome then s.epoch + 1 else s.epoch } := rfl

@[simp] theorem boundary?_settle (s : DrawState) : s.settle.boundary? = none := rfl

@[simp] theorem boundary?_selectNull (s : DrawState) :
    s.selectNull.boundary? = some .null := rfl

@[simp] theorem boundary?_bindTexture (s : DrawState) (index : Nat) :
    (s.bindTexture index).boundary? = some .texture := rfl

end DrawState

end DisplayList

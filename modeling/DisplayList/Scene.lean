import DisplayList.Assembly
import DisplayList.Decoder

/-!
# Scenes

What a model comes to when its display list is run: meshes, the materials they are
drawn in and the textures of those.
-/
namespace DisplayList

/-- Meshes, each naming one of the materials, which in turn name textures. -/
structure Scene where
  materials : Array Material := #[]
  meshes : Array Mesh := #[]
  textures : Array Texture := #[]
  deriving DecidableEq, Repr

namespace Scene

/-- How many faces the meshes have in all. -/
def faceCount (s : Scene) : Nat :=
  s.meshes.toList.foldr (fun m n => m.faces.size + n) 0

end Scene

/-- A scene, the problems on the way to it and what the codec was asked. -/
structure Decoded where
  scene : Scene
  diagnostics : List Diagnostic
  requests : Array CodecRequest
  deriving DecidableEq, Repr

/-- The scene of a finished run. -/
def Decoder.scene (m : Model) (d : Decoder) : Scene where
  materials := d.table.materials
  meshes := d.recording.meshes m.vertices
  textures := d.table.textures

namespace Model

/-- How many commands a display list may have unless it is said otherwise. -/
def defaultLimit : Nat := 1048576

/-- Assembles what a run has recorded. -/
def assembleBy {M : Type → Type} [Monad M] (ar : Arithmetic M) (m : Model) (d : Decoder) :
    M (Logged DecodeError Decoded) := do
  let (meshes, placement) ← d.recording.assembleBy ar m.vertices
  let scene : Scene := { materials := d.table.materials, meshes, textures := d.table.textures }
  return do
    Logged.recordAll placement
    Logged.note (.meshesAssembled scene.meshes.size scene.faceCount)
    return ⟨scene, d.diagnostics ++ placement.diagnostics, d.table.requests⟩

/-- Runs the display list of a model and assembles what it recorded. -/
def decodeBy {M : Type → Type} [Monad M] (ar : Arithmetic M) (m : Model) (codec : Codec)
    (limit : Nat) : M (Logged DecodeError Decoded) := do
  (← Decoder.runBy ar m codec limit (.start m)).bindIn (m.assembleBy ar)

def decode (m : Model) (codec : Codec) (limit : Nat) : Logged DecodeError Decoded :=
  Id.run (m.decodeBy .plain codec limit)

end Model

end DisplayList

import DisplayList.Export
import DisplayList.Model.Container

/-!
# Conversions

From a model file to the files of a scene. All that can go wrong with the model and
with the kind of output is settled before the first file is written.
-/
namespace DisplayList

/-- What is to be converted, and how. -/
structure Conversion where
  input : Path
  output : Path
  limit : Nat := Model.defaultLimit
  withImages : Bool := true
  deriving DecidableEq, Repr

/-- Why a model file could not be read, decoded or written as a scene. -/
inductive ConversionError
  | unreadable (path : Path) (cause : FileError)
  | load (cause : LoadError)
  | decode (cause : DecodeError)
  | write (cause : ExportError)
  deriving DecidableEq, Repr

namespace ConversionError

def message : ConversionError → String
  | unreadable path cause => s!"I/O error reading {path.text}: {cause.message}"
  | load cause => cause.message
  | decode cause => cause.message
  | write cause => cause.message

end ConversionError

/-- What a conversion came to. -/
structure ConversionReport where
  meshCount : Nat
  faceCount : Nat
  materialCount : Nat
  written : List Path
  diagnostics : List Diagnostic
  deriving DecidableEq, Repr

/-- A model and what it decodes to. -/
structure Inspection where
  model : Model
  decoded : Decoded
  deriving DecidableEq, Repr

namespace Inspection

/-- Reads a model from what a file holds. -/
def readModel (input : Path) (content : Except FileError Bytes) :
    Logged ConversionError Model := do
  match content with
  | .error cause => throw (.unreadable input cause)
  | .ok content =>
    Logged.note (.fileRead content.length input.text)
    (Model.load content).mapError .load

/-- Reads and decodes a model from what a file holds. -/
def ofContent (input : Path) (limit : Nat) (content : Except FileError Bytes) :
    Logged ConversionError Inspection := do
  let model ← readModel input content
  let decoded ← (model.decode .packed limit).mapError .decode
  return ⟨model, decoded⟩

/-- Reads and decodes the model in a file. -/
def ofFile (t : FileTree) (input : Path) (limit : Nat) : Logged ConversionError Inspection :=
  ofContent input limit (t.read input)

end Inspection

namespace Conversion

/-- Everything up to the writing of files: the scene, and the steps that write it. -/
def prepare (c : Conversion) (content : Except FileError Bytes) :
    Logged ConversionError (Decoded × List ExportStep) := do
  Logged.note (.conversionStarted c.input.text)
  let ⟨_, decoded⟩ ← Inspection.ofContent c.input c.limit content
  unless decoded.diagnostics.isEmpty do
    Logged.note (.problemsFound decoded.diagnostics.length c.input.text)
  let steps ← Logged.ofExcept
    ((Export.plan decoded.scene c.output c.withImages).mapError ConversionError.write)
  return (decoded, steps)

/-- The report on a scene written by steps. -/
def report (decoded : Decoded) (steps : List ExportStep) : ConversionReport where
  meshCount := decoded.scene.meshes.size
  faceCount := decoded.scene.faceCount
  materialCount := decoded.scene.materials.size
  written := Export.written steps
  diagnostics := decoded.diagnostics

/-- Converts a model file of a tree. -/
def run (c : Conversion) (t : FileTree) (save : ImageSaver := Png.save) :
    Logged ConversionError ConversionReport × FileTree :=
  let prepared := c.prepare (t.read c.input)
  match prepared.result with
  | .error e => (⟨.error e, prepared.journal⟩, t)
  | .ok (decoded, steps) =>
    let (done, t) := Export.run save steps t
    (⟨(done.result.map fun () => report decoded steps).mapError .write,
      prepared.journal ++ done.journal⟩, t)

end Conversion

end DisplayList

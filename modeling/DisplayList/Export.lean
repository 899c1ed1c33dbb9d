import DisplayList.Png
import DisplayList.Wavefront.Mtl

/-!
# Writing scenes

The extension of a path says how a scene is written there. Writing is laid out first,
as steps that each do one thing to the files; carrying them out stops at the first
that fails. So nothing is touched before it is certain what is to be written. Whatever
saves images can be given; where nothing is given, they become PNG files.
-/
namespace DisplayList

/-- The formats that scenes are written in. -/
inductive ExportFormat
  | obj
  deriving DecidableEq, Repr

/-- The format that a path's extension names, in capitals or not. -/
def ExportFormat.ofPath? (p : Path) : Option ExportFormat :=
  p.extension?.bind fun extension =>
    if extension.toList.map Char.toLower = ['o', 'b', 'j'] then some .obj else none

/-- Why a scene could not be written. -/
inductive ExportError
  | file (cause : FileError)
  | unsupportedFormat (path : Path)
  | imageEncode (path : Path) (reason : String)
  deriving DecidableEq, Repr

namespace ExportError

def message : ExportError → String
  | file cause => s!"I/O error: {cause.message}"
  | unsupportedFormat path => s!"Unsupported output format for {path.text}"
  | imageEncode path reason => s!"Image encode error for {path.text}: {reason}"

end ExportError

/-- One thing done to the files. -/
inductive FileAction
  | makeDirectories (directory : Path)
  | saveImage (path : Path) (image : PixelBuffer)
  | saveText (path : Path) (text : String)
  deriving DecidableEq, Repr

namespace FileAction

/-- The file that an action writes. -/
def saved? : FileAction → Option Path
  | makeDirectories _ => none
  | saveImage path _ | saveText path _ => some path

/-- Does an action to a tree; what it did before it failed stays done. -/
def perform (save : ImageSaver) (t : FileTree) :
    FileAction → Except ExportError Unit × FileTree
  | makeDirectories directory =>
    let (result, t) := t.makeDirectories directory
    (result.mapError .file, t)
  | saveImage path image =>
    let (result, t) := save t path image
    (result.mapError (.imageEncode path), t)
  | saveText path text =>
    match t.write path (Bytes.ofText text) with
    | .ok written => (.ok (), written)
    | .error e => (.error (.file e), t)

end FileAction

/-- An action and the note that follows it. -/
structure ExportStep where
  action : FileAction
  note? : Option Note := none
  deriving DecidableEq, Repr

namespace Export

/-- The image of a material's texture, with the texture's position, if it is to be written. -/
def imageOf (s : Scene) (withImages : Bool) (m : Material) : Option (Nat × PixelBuffer) := do
  let texture ← m.texture
  let pixels ← (← s.textures[texture]?).pixels
  if withImages then some (texture, pixels) else none

/-- The name of a texture's image file. -/
def imageName (stem : String) (texture : Nat) : String :=
  stem ++ "_tex_" ++ Numeral.decimal 4 texture ++ ".png"

/-- The steps that write a scene as an OBJ file: the directory, an image for every
material that has one, the MTL file and the OBJ file, side by side. -/
def objSteps (s : Scene) (p : Path) (withImages : Bool) : List ExportStep :=
  let directory := p.parent?.getD ⟨""⟩
  let stem := p.stem?.getD "scene"
  let library := stem ++ ".mtl"
  let images := s.materials.toList.map (imageOf s withImages)
  let names := images.map (Option.map fun (texture, _) => imageName stem texture)
  let saveImages := (images.filterMap id).map fun (texture, pixels) =>
    let path := directory.join (imageName stem texture)
    { action := .saveImage path pixels, note? := some (.imageWritten path.text) }
  [{ action := .makeDirectories directory }] ++ saveImages ++
    [{ action := .saveText (directory.join library)
        (Wavefront.mtlText s.materials.toList names) },
      { action := .saveText p (Wavefront.objText s library)
        note? := some (.sceneWritten p.text s.meshes.size s.faceCount) }]

/-- The steps that write a scene to a path. -/
def plan (s : Scene) (p : Path) (withImages : Bool) : Except ExportError (List ExportStep) :=
  match ExportFormat.ofPath? p with
  | some .obj => .ok (objSteps s p withImages)
  | none => .error (.unsupportedFormat p)

/-- The files that steps write, in order. -/
def written (steps : List ExportStep) : List Path :=
  steps.filterMap fun step => step.action.saved?

/-- Carries out steps on a tree up to the first that fails. -/
def run (save : ImageSaver) : List ExportStep → FileTree → Logged ExportError Unit × FileTree
  | [], t => (return (), t)
  | step :: rest, t =>
    match step.action.perform save t with
    | (.error e, t) => (throw e, t)
    | (.ok (), t) =>
      let (done, t) := run save rest t
      (do Logged.recordAll (step.note?.map Entry.note).toList; done, t)

/-- Writes a scene to a path and gives the files written. -/
def write (t : FileTree) (s : Scene) (p : Path) (withImages : Bool)
    (save : ImageSaver := Png.save) : Logged ExportError (List Path) × FileTree :=
  match plan s p withImages with
  | .error e => (throw e, t)
  | .ok steps =>
    let (done, t) := run save steps t
    (do done; return written steps, t)

end Export

end DisplayList

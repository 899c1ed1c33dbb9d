import DisplayList.CommandLine

/-!
# The program

Reads the arguments, runs what they ask for on the files of the system, and prints.
-/
namespace DisplayList.Main

/-- The operating system's reason for refusing, as a cause. -/
def causeOf (e : IO.Error) : FileError :=
  match e with
  | .noFileOrDirectory .. => .notFound
  | .alreadyExists .. => .alreadyExists
  | .inappropriateType _ 20 _ => .notDirectory
  | .inappropriateType _ 21 _ => .isDirectory
  | .invalidArgument _ 36 _ => .nameTooLong
  | other => .other (toString other)

/-- What an operation gives, or why it is refused. -/
def attempt (act : IO α) : IO (Except FileError α) := do
  try
    return .ok (← act)
  catch e =>
    return .error (causeOf e)

/-- What a file of the system holds. -/
def readFile (path : Path) : IO (Except FileError Bytes) :=
  attempt do return (← IO.FS.readBinFile path.text).data.toList

/-- Makes one directory. -/
def makeDirectory (path : Path) : IO (Except FileError Unit) :=
  attempt (IO.FS.createDir path.text)

/-- What a refusal to make a directory comes to: nothing, if it is there already. -/
def unlessThere (path : Path) : Except FileError Unit → IO (Except FileError Unit)
  | .ok () => return .ok ()
  | .error e => do
    if let .ok there ← attempt (IO.FS.realPath path.text) then
      if ← there.isDir then return .ok ()
    return .error e

/-- Makes the first of some directories, and before it those after it as far as they
are wanting. -/
def makeFirst : List Path → IO (Except FileError Unit)
  | [] => return .ok ()
  | path :: above => do
    match ← makeDirectory path with
    | .error .notFound =>
      match ← makeFirst above with
      | .error e => return .error e
      | .ok () => unlessThere path (← makeDirectory path)
    | made => unlessThere path made

/-- Saves an image as a PNG file. -/
def savePng (path : Path) (image : PixelBuffer) : IO (Except String Unit) := do
  match ← attempt (IO.FS.writeBinFile path.text ⟨(Png.file image).toArray⟩) with
  | .ok () => return Png.verdict image
  | .error e => return .error e.message

/-- Does an action to the files of the system. -/
def perform : FileAction → IO (Except ExportError Unit)
  | .makeDirectories directory => do
    return (← makeFirst directory.ancestors).mapError .file
  | .saveImage path image => do
    return (← savePng path image).mapError (.imageEncode path)
  | .saveText path text => do
    return (← attempt (IO.FS.writeFile path.text text)).mapError .file

/-- Carries out steps up to the first that fails. -/
def carryOut : List ExportStep → IO (Logged ExportError Unit)
  | [] => return .ofExcept (.ok ())
  | step :: rest => do
    match ← perform step.action with
    | .error e => return .ofExcept (.error e)
    | .ok () =>
      let done ← carryOut rest
      return do Logged.recordAll (step.note?.map Entry.note).toList; done

/-- Converts a file of the system. -/
def convert (c : Conversion) : IO (Logged ConversionError ConversionReport) := do
  let content ← readFile c.input
  let prepared := c.prepare content
  match prepared.result with
  | .error e => return ⟨.error e, prepared.journal⟩
  | .ok (decoded, steps) =>
    let done ← carryOut steps
    return ⟨(done.result.map fun () => Conversion.report decoded steps).mapError .write,
      prepared.journal ++ done.journal⟩

/-- Prints an outcome. -/
def print (o : CommandLine.Outcome) : IO UInt32 := do
  IO.eprint o.errors
  IO.print o.output
  return .ofNat o.exitCode

end DisplayList.Main

open DisplayList in
def main (arguments : List String) : IO UInt32 := do
  match CommandLine.parse arguments with
  | .error stop => Main.print stop.outcome
  | .ok ⟨.convert conversion, quiet⟩ =>
    Main.print (CommandLine.conversionOutcome quiet (← Main.convert conversion))
  | .ok ⟨.inspect input limit, quiet⟩ =>
    let content ← Main.readFile input
    Main.print
      (CommandLine.inspectionOutcome quiet input (Inspection.ofContent input limit content))

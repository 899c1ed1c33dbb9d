import DisplayList.Conversion
import DisplayList.Terminal

/-!
# The command line

Arguments are read from left to right. What is asked for is then run on a file tree,
and comes to an exit code, lines for the two output streams, and what of the journal is
to be shown.
-/
namespace DisplayList.CommandLine

/-- The options there are. -/
inductive Switch
  | quiet
  | version
  | help
  | output
  | maxCommands
  | noTextures
  deriving DecidableEq, Repr

namespace Switch

def long : Switch → String
  | quiet => "quiet"
  | version => "version"
  | help => "help"
  | output => "output"
  | maxCommands => "max-commands"
  | noTextures => "no-textures"

def short? : Switch → Option Char
  | quiet => some 'q'
  | version => some 'V'
  | help => some 'h'
  | output => some 'o'
  | _ => none

def takesValue : Switch → Bool
  | output | maxCommands => true
  | _ => false

/-- Whether an option ends the reading of arguments. -/
def stops : Switch → Bool
  | version | help => true
  | _ => false

end Switch

/-- Where arguments stand: before the name of a command or after it. -/
inductive Scope
  | general
  | convert
  | inspect
  deriving DecidableEq, Repr

namespace Scope

/-- The options that may stand in a place. -/
def switches : Scope → List Switch
  | general => [.quiet, .version, .help]
  | convert => [.quiet, .help, .output, .maxCommands, .noTextures]
  | inspect => [.quiet, .help, .maxCommands]

def long? (s : Scope) (name : String) : Option Switch :=
  s.switches.find? fun o => o.long = name

def short? (s : Scope) (letter : Char) : Option Switch :=
  s.switches.find? fun o => o.short? = some letter

end Scope

/-- What is wrong with arguments. -/
inductive UsageError
  | noCommand
  | unknownCommand (name : String)
  | unknownOption (argument : String)
  | repeatedOption (option : Switch)
  | missingValue (option : Switch)
  | unexpectedValue (option : Switch)
  | invalidValue (option : Switch) (value : String)
  | missingInput
  | missingOutput
  | emptyInput
  | surplusArgument (argument : String)
  deriving DecidableEq, Repr

namespace UsageError

def message : UsageError → String
  | noCommand => "a command is required: convert or inspect"
  | unknownCommand name => s!"unrecognized command: {name}"
  | unknownOption argument => s!"unexpected argument: {argument}"
  | repeatedOption option => s!"--{option.long} cannot be used multiple times"
  | missingValue option => s!"--{option.long} requires a value"
  | unexpectedValue option => s!"--{option.long} takes no value"
  | invalidValue option value => s!"invalid value for --{option.long}: {value}"
  | missingInput => "INPUT is required"
  | missingOutput => "--output is required"
  | emptyInput => "INPUT is empty"
  | surplusArgument argument => s!"unexpected argument: {argument}"

end UsageError

/-- Why reading stops early: something is wrong, or a text is asked for. -/
inductive Stop
  | usage (error : UsageError)
  | version
  | help
  deriving DecidableEq, Repr

/-- The arguments read so far. -/
structure Given where
  options : List (Switch × String) := []
  positional : List String := []
  deriving DecidableEq, Repr

/-- One argument by its form: options with the value attached to the last one, if any. -/
inductive Piece
  | plain (text : String)
  | endOfOptions
  | options (flags : List Switch) (last : Option (Switch × Option String))
  deriving DecidableEq, Repr

/-- The letters of a cluster of short options. The first one that takes a value takes
what is left, behind an equals sign or not; nothing is read after one that stops. -/
def readLetters (s : Scope) (argument : String) :
    List Char → Except UsageError (List Switch × Option (Switch × Option String))
  | [] => .ok ([], none)
  | letter :: rest =>
    match s.short? letter with
    | none => .error (.unknownOption argument)
    | some option =>
      if option.takesValue then
        match rest with
        | [] => .ok ([], some (option, none))
        | '=' :: value => .ok ([], some (option, some (String.ofList value)))
        | value => .ok ([], some (option, some (String.ofList value)))
      else if option.stops then .ok ([option], none)
      else do
        let (flags, last) ← readLetters s argument rest
        return (option :: flags, last)

/-- Reads the form of one argument. -/
def readPiece (s : Scope) (argument : String) : Except UsageError Piece :=
  match argument.toList with
  | ['-', '-'] => .ok .endOfOptions
  | '-' :: '-' :: rest =>
    let name := String.ofList (rest.takeWhile (· ≠ '='))
    let value := (rest.dropWhile (· ≠ '=')).tail?.map String.ofList
    match s.long? name with
    | none => .error (.unknownOption argument)
    | some option =>
      if option.takesValue then .ok (.options [] (some (option, value)))
      else if value.isSome then .error (.unexpectedValue option)
      else .ok (.options [option] none)
  | '-' :: letter :: rest => do
    let (flags, last) ← readLetters s argument (letter :: rest)
    return .options flags last
  | _ => .ok (.plain argument)

/-- The greatest limit that can be given. -/
def greatestLimit : Nat := 18446744073709551615

/-- Reads a limit: digits, behind a plus sign or not. -/
def readLimit? (text : String) : Option Nat :=
  let digits :=
    match text.toList with
    | '+' :: rest => rest
    | rest => rest
  if digits ≠ [] ∧ digits.all Char.isDigit then
    let n := digits.foldl (fun n c => n * 10 + (c.toNat - '0'.toNat)) 0
    if n ≤ greatestLimit then some n else none
  else none

namespace Given

/-- Takes in a flag, of which those for a text stop the reading. -/
def addFlag (g : Given) (option : Switch) : Except Stop Given :=
  match option with
  | .version => .error .version
  | .help => .error .help
  | _ =>
    if g.options.any (·.1 = option) then .error (.usage (.repeatedOption option))
    else .ok { g with options := (option, "") :: g.options }

/-- Takes in an option with its value. -/
def addValue (g : Given) (option : Switch) (value : String) : Except Stop Given :=
  if g.options.any (·.1 = option) then .error (.usage (.repeatedOption option))
  else if value = "" then .error (.usage (.missingValue option))
  else if option = .maxCommands ∧ (readLimit? value).isNone then
    .error (.usage (.invalidValue option value))
  else .ok { g with options := (option, value) :: g.options }

/-- Takes in the input, of which there is one. -/
def addPlain (g : Given) (text : String) : Except Stop Given :=
  if g.positional ≠ [] then .error (.usage (.surplusArgument text))
  else if text = "" then .error (.usage .emptyInput)
  else .ok { g with positional := [text] }

/-- Whether an option was given. -/
def has (g : Given) (option : Switch) : Bool :=
  g.options.any (·.1 = option)

/-- The limit that was given, or the usual one. -/
def limit (g : Given) : Nat :=
  ((g.options.lookup .maxCommands).bind readLimit?).getD Model.defaultLimit

end Given

/-- Whether an argument cannot be the value of the option before it. -/
def looksLikeOption (argument : String) : Bool :=
  match argument.toList with
  | '-' :: _ :: _ => true
  | _ => false

/-- Reads arguments up to the end or, before the name of a command, up to that name. -/
def collect (s : Scope) : List String → Given → Except Stop (Given × List String)
  | [], g => .ok (g, [])
  | argument :: rest, g =>
    match readPiece s argument with
    | .error e => .error (.usage e)
    | .ok .endOfOptions =>
      if s = .general then .error (.usage .noCommand)
      else do return (← rest.foldlM Given.addPlain g, [])
    | .ok (.plain text) =>
      if s = .general then .ok (g, text :: rest)
      else do collect s rest (← g.addPlain text)
    | .ok (.options flags last) => do
      let g ← flags.foldlM Given.addFlag g
      match last, rest with
      | none, rest => collect s rest g
      | some (option, some value), rest => collect s rest (← g.addValue option value)
      | some (option, none), [] => throw (.usage (.missingValue option))
      | some (option, none), value :: rest =>
        if looksLikeOption value then throw (.usage (.missingValue option))
        collect s rest (← g.addValue option value)

/-- What the arguments ask for. -/
inductive Request
  | convert (conversion : Conversion)
  | inspect (input : Path) (limit : Nat)
  deriving DecidableEq, Repr

/-- A request, and whether notes and summaries are to be left out. -/
structure Invocation where
  request : Request
  quiet : Bool
  deriving DecidableEq, Repr

/-- The conversion that options ask for. -/
def readConvert (g : Given) : Except Stop Request :=
  match g.positional, g.options.lookup .output with
  | [], _ => .error (.usage .missingInput)
  | _, none => .error (.usage .missingOutput)
  | input :: _, some output => .ok (.convert {
      input := ⟨input⟩
      output := ⟨output⟩
      limit := g.limit
      withImages := !g.has .noTextures })

/-- The inspection that options ask for. -/
def readInspect (g : Given) : Except Stop Request :=
  match g.positional with
  | [] => .error (.usage .missingInput)
  | input :: _ => .ok (.inspect ⟨input⟩ g.limit)

/-- Reads all arguments. -/
def parse (arguments : List String) : Except Stop Invocation := do
  let (general, rest) ← collect .general arguments {}
  match rest with
  | [] => throw (.usage .noCommand)
  | "convert" :: rest =>
    let (given, _) ← collect .convert rest {}
    return ⟨← readConvert given, general.has .quiet || given.has .quiet⟩
  | "inspect" :: rest =>
    let (given, _) ← collect .inspect rest {}
    return ⟨← readInspect given, general.has .quiet || given.has .quiet⟩
  | ["help"] | ["help", "convert"] | ["help", "inspect"] => throw .help
  | name :: _ => throw (.usage (.unknownCommand name))

/-- What a run comes to. -/
structure Outcome where
  exitCode : Nat
  stdout : List String := []
  stderr : List String := []
  /-- What of the journal is shown, in front of the lines for the error stream. -/
  shown : Journal := []
  deriving DecidableEq, Repr

/-- How far an entry's further lines are indented. -/
def entryIndent : Nat := 4

/-- An entry as it is shown: its level in brackets and its message, without control
sequences. One that a message leaves open takes the entry's last line feed with it, so
that what follows goes on in the same line. -/
def entryText (e : Entry) : String :=
  Terminal.strip (hang entryIndent s!"[{e.level.name}] {e.message}" ++ "\n")

namespace Outcome

/-- All that goes to the output stream. -/
def output (o : Outcome) : String :=
  joinLines o.stdout

/-- All that goes to the error stream. -/
def errors (o : Outcome) : String :=
  String.join (o.shown.map entryText) ++ joinLines o.stderr

end Outcome

/-- The name and version of the program. -/
def versionLine : String := "f3dex-scene 0.1.0"

/-- A short account of the arguments. -/
def helpLines : List String :=
  ["Decode F3DEX display lists from model binaries into 3D scenes",
    "",
    "Usage: f3dex-scene [--quiet] convert INPUT --output OUTPUT [--max-commands N] [--no-textures]",
    "       f3dex-scene [--quiet] inspect INPUT [--max-commands N]",
    "       f3dex-scene --version",
    "       f3dex-scene --help"]

/-- The outcome of arguments that ask for nothing to be run. -/
def Stop.outcome : Stop → Outcome
  | version => { exitCode := 0, stdout := [versionLine] }
  | help => { exitCode := 0, stdout := helpLines }
  | usage e => { exitCode := 2, stderr := ["error: " ++ e.message] }

/-- The lines after a conversion. -/
def reportLines (r : ConversionReport) : List String :=
  let problems := r.diagnostics.length
  [s!"Success: {r.meshCount} meshes, {r.faceCount} faces, {r.materialCount} materials, " ++
    s!"{r.written.length} files written"] ++
  if problems = 0 then []
  else [s!"Warning: {problems} recoverable problems, see the warnings above"]

/-- The lines on an inspected model. -/
def inspectionLines (input : Path) (i : Inspection) : List String :=
  let scene := i.decoded.scene
  let problems := i.decoded.diagnostics
  [s!"Model:       {input.text}",
    s!"Vertices:    {i.model.vertices.size}",
    s!"Textures:    {i.model.textures.size}",
    s!"Commands:    {i.model.commands.size}",
    s!"Materials:   {scene.materials.size}",
    s!"Meshes:      {scene.meshes.size}",
    s!"Faces:       {scene.faceCount}",
    s!"Diagnostics: {problems.length}"] ++
  Diagnostic.Kind.all.filterMap fun kind =>
    let count := Diagnostic.countOf problems kind
    if count = 0 then none else some s!"  {kind.name}: {count}"

/-- What of a journal is shown: all but the details, and nothing where all is to be quiet. -/
def shown (quiet : Bool) (j : Journal) : Journal :=
  if quiet then [] else j.filter fun e => e.level ≠ .debug

/-- The outcome of a failure. -/
def failure (quiet : Bool) (e : ConversionError) (j : Journal) : Outcome :=
  { exitCode := 1, stderr := ["Error: " ++ e.message], shown := shown quiet j }

/-- The outcome of a conversion. -/
def conversionOutcome (quiet : Bool) (r : Logged ConversionError ConversionReport) : Outcome :=
  match r.result with
  | .error e => failure quiet e r.journal
  | .ok report =>
    { exitCode := 0
      stderr := if quiet then [] else reportLines report
      shown := shown quiet r.journal }

/-- The outcome of an inspection. -/
def inspectionOutcome (quiet : Bool) (input : Path) (r : Logged ConversionError Inspection) :
    Outcome :=
  match r.result with
  | .error e => failure quiet e r.journal
  | .ok i =>
    { exitCode := 0, stdout := inspectionLines input i, shown := shown quiet r.journal }

/-- Runs the program with arguments on a file tree. -/
def run (arguments : List String) (t : FileTree) (save : ImageSaver := Png.save) :
    Outcome × FileTree :=
  match parse arguments with
  | .error stop => (stop.outcome, t)
  | .ok ⟨.convert conversion, quiet⟩ =>
    let (r, t) := conversion.run t save
    (conversionOutcome quiet r, t)
  | .ok ⟨.inspect input limit, quiet⟩ =>
    (inspectionOutcome quiet input (Inspection.ofFile t input limit), t)

end DisplayList.CommandLine

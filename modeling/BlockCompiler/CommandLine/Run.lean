import BlockCompiler.CommandLine.Files
import BlockCompiler.CommandLine.Options
import BlockCompiler.Document.File
import BlockCompiler.Emission.Source
import BlockCompiler.Settings

/-!
The command: compile the document in a file, and print the source or write it to a file.
-/

namespace BlockCompiler

/-- A message for the log. -/
structure LogLine where
  source : String
  level : String
  text : String

/-- A log line with its source and level. -/
def LogLine.full (line : LogLine) : String := line.source ++ " - " ++ line.level ++ " - " ++ line.text

/-- A line of information. -/
def information (source text : String) : LogLine := ⟨source, "INFO", text⟩

/-- The line that says that a workspace was loaded. -/
def loadedLine (ws : Workspace) : LogLine :=
  let blocks := ws.members.length
  let declared := ws.declared.length
  information "blockcpp.compiler.deserialiser"
    s!"Loaded workspace '{ws.name}': {blocks} blocks, {declared} variables"

/-- A line of the command itself. -/
def commandNote (text : String) : LogLine := information "blockcpp.compile_from_json" text

/-- The line that says that a placeholder stands in for a block. -/
def placeholderLine (type : String) : LogLine :=
  ⟨"blockcpp.compiler.emitter", "WARNING",
    s!"No template registered for block type '{type}', emitting placeholder"⟩

/-- Why a command breaks off. -/
inductive CommandError where
  | port (error : NumeralError)
  | level (name : String)
  | path (error : PathError)
  | emission (error : EmissionError)
  | unencodable (source : String)

/-- What a command error says. -/
def CommandError.message : CommandError → String
  | .port error => error.message
  | .level name => "Unknown level: " ++ shownText name
  | .path error => error.message
  | .emission error => error.message
  | .unencodable source => unencodableMessage source

/-- What a command leaves: its exit code, what it printed, its error messages, the log and the files. -/
structure Outcome where
  exitCode : Nat
  printed : String := ""
  errors : List String := []
  log : List LogLine := []
  files : Files

/-- The log without the lines of lower levels than the least one. -/
def logFrom (least : Nat) (lines : List LogLine) : List LogLine :=
  lines.filter fun line => least ≤ (logLevels.lookup line.level).getD 0

/-- Load a document from the contents of a file; a failure is told in the words of the command. -/
def loadFile (options : CommandOptions) (bytes : List UInt8) : Except String Workspace :=
  match Reading.ofFile bytes with
  | .error (.json error@(.malformed ..)) => .error ("Invalid JSON: " ++ error.message)
  | .error error => .error ("Invalid workspace: " ++ error.message)
  | .ok reading =>
    match loadWorkspace options.strict (if options.oneBased then some true else none) reading.data with
    | .error (.schema error) => .error ("Schema validation failed: " ++ error.message)
    | .error (.edit error) => .error ("Invalid workspace: " ++ error.message)
    | .ok ws => .ok ws

/-- Whether the contents of a file have lone halves of surrogate pairs. -/
def isHalved (bytes : List UInt8) : Bool := (Reading.ofFile bytes).toOption.any (·.halved)

/-- Compile the contents of a file, and print the source or write it into a directory. A source or a name with
lone halves of surrogate pairs can be neither printed nor written. -/
def compileFile (options : CommandOptions) (outDir : String) (bytes : List UInt8) (files : Files) :
    Except CommandError Outcome :=
  match loadFile options bytes with
  | .error reason => .ok { exitCode := 1, errors := ["[error] " ++ reason], files }
  | .ok ws =>
    let blocks := ws.members.length
    let opening :=
      [loadedLine ws, commandNote s!"workspace : {ws.name}", commandNote s!"blocks    : {blocks}"]
    let (result, pass) := Emitter.sourceAmong (isHalved bytes) { strict := options.strict } ws
    let log := opening ++ pass.placeholders.reverse.map placeholderLine
    match result with
    | .error error =>
      if error.isRefusal then
        .ok { exitCode := 1, errors := ["[error] Code generation failed: " ++ error.message], log, files }
      else .error (.emission error)
    | .ok source =>
      let broken := isHalved bytes && holdsHalf source
      if options.printOnly then
        if broken then .error (.unencodable source)
        else .ok { exitCode := 0, printed := source ++ "\n", log, files }
      else
        let directory := Route.ofText outDir
        let target := directory.join (Route.ofText (fileName ws.name))
        let written := do (← files.makeDirectories directory).write target source.toUTF8.toList
        match written with
        | .error error => .error (.path error)
        | .ok files =>
          if broken || isHalved bytes && holdsHalf ws.name then .error (.unencodable (target.text ++ source))
          else .ok { exitCode := 0, log := log ++ [commandNote s!"wrote     : {target.text}"], files }

/-- A text unless it is missing or empty, and then another. -/
def orElseText (text : Option String) (other : String) : String := (text.filter (· ≠ "")).getD other

/-- Do what options say under some settings. -/
def runOptions (options : CommandOptions) (settings : Settings) (files : Files) :
    Except CommandError Outcome :=
  let level := upper (orElseText options.logLevel settings.logLevel)
  match logLevels.lookup level with
  | none => .error (.level level)
  | some least =>
    let route := Route.ofText options.file
    match files.locate route with
    | .error .nameTooLong => .error (.path .nameTooLong)
    | .error _ => .ok { exitCode := 1, errors := ["[error] File not found: " ++ route.text], files }
    | .ok place =>
      if files.isDirectory place then .error (.path .isADirectory)
      else
        match files.read? place with
        | none => .ok { exitCode := 1, errors := ["[error] File not found: " ++ route.text], files }
        | some bytes =>
          match compileFile options (orElseText options.out settings.outDir) bytes files with
          | .error error => .error error
          | .ok outcome => .ok { outcome with log := logFrom least outcome.log }

/-- Run the command with some arguments in an environment. -/
def runCommand (arguments : List String) (environment : Table String) (files : Files) :
    Except CommandError Outcome :=
  match CommandOptions.ofArguments arguments with
  | .error .help => .ok { exitCode := 0, files }
  | .error .misuse => .ok { exitCode := 2, files }
  | .ok options =>
    match Settings.ofEnvironment environment with
    | .error error => .error (.port error)
    | .ok settings => runOptions options settings files

end BlockCompiler

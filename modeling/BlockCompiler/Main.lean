import BlockCompiler.CommandLine.Run

/-!
The command as a program.
-/

open BlockCompiler

/-- The settings that the environment may hold. -/
def settingNames : List String :=
  ["APP_NAME", "API_URL", "API_VERSION", "API_PREFIX", "OUT_DIR", "LOG_LEVEL", "HOST", "PORT"]

/-- The environment as a table. -/
def readEnvironment : IO (Table String) := do
  let entries ← settingNames.filterMapM fun name => do
    let key := "BLOCKCPP_" ++ name
    return (← IO.getEnv key).map (key, ·)
  return Table.ofEntries entries

/-- The file that the arguments name, if it can be read. -/
def readNamedFile (arguments : List String) : IO Files := do
  match CommandOptions.ofArguments arguments with
  | .error _ => return {}
  | .ok options =>
    try
      let content ← IO.FS.readBinFile options.file
      return (Files.ofFile (Route.ofText options.file) content.toList).toOption.getD {}
    catch _ => return {}

def main (arguments : List String) : IO UInt32 := do
  let files ← readNamedFile arguments
  match runCommand arguments (← readEnvironment) files with
  | .error error =>
    IO.eprintln error.message
    return 1
  | .ok outcome =>
    IO.print outcome.printed
    outcome.log.forM fun line => IO.eprintln line.full
    outcome.errors.forM fun line => IO.eprintln line
    for directory in outcome.files.directories do
      IO.FS.createDirAll directory.text
    for (place, content) in outcome.files.contents do
      if (files.read? place).isNone then IO.FS.writeBinFile place.text ⟨content.toArray⟩
    return outcome.exitCode.toUInt32

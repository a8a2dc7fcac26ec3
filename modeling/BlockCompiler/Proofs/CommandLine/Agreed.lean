import BlockCompiler.CommandLine.Run
import BlockCompiler.Proofs.Service.Answered

/-!
The service and the command agree with the compiler. The service answers each end of a compilation in its own
way, and a command that is to print the source prints it just when the service has it. A name with a lone half
of a surrogate pair breaks off both.
-/

namespace BlockCompiler

/-- A command is to print the source of a request. Its arguments ask for this, its environment has settings
and a level for the log, and the file that it names holds the workspace. -/
structure CompileRequest.PrintedBy (request : CompileRequest) (arguments : List String)
    (environment : Table String) (files : Files) (options : CommandOptions) : Prop where
  asked : CommandOptions.ofArguments arguments = .ok options
  printOnly : options.printOnly = true
  strict : options.strict = request.strict
  oneBased : (if options.oneBased then some true else none) = request.oneBased
  configured : ∃ settings, Settings.ofEnvironment environment = .ok settings ∧
    (logLevels.lookup (upper (orElseText options.logLevel settings.logLevel))).isSome
  held : ∃ place bytes, files.locate (.ofText options.file) = .ok place ∧ files.isDirectory place = false ∧
    files.read? place = some bytes ∧ Reading.ofFile bytes = .ok request.reading

/-- What a command leaves tells how the compilation ended. -/
structure Outcome.Tells (outcome : Outcome) (ended : Except CompileError String) : Prop where
  source : ∀ code, ended = .ok code ↔ outcome.exitCode = 0 ∧ outcome.printed = code ++ "\n"
  failed : (∃ error, ended = .error error) ↔ outcome.exitCode = 1 ∧ outcome.printed = ""

section Command

variable {request : CompileRequest} {arguments : List String} {environment : Table String} {files : Files}
  {options : CommandOptions} {ended : Except CompileError String} {bytes : List UInt8}

/-- Whether a file has halves is known from what is read from it. -/
theorem isHalved_of_ofFile {reading : Reading} (read : Reading.ofFile bytes = .ok reading) :
    isHalved bytes = reading.halved := by
  simp [isHalved, read, Except.toOption]

/-- A workspace is loaded from a file as it is from the value there. -/
theorem CompileRequest.PrintedBy.loadFile_eq (printed : request.PrintedBy arguments environment files options)
    (read : Reading.ofFile bytes = .ok request.reading) {ws : Workspace}
    (loaded : loadWorkspace request.strict request.oneBased request.workspace = .ok ws) :
    loadFile options bytes = .ok ws := by
  simp only [loadFile, read, printed.oneBased, printed.strict, CompileRequest.reading, loaded]

/-- The contents of a file are compiled as their value is, and the source is printed if it has no halves. -/
theorem CompileRequest.Ends.exists_outcome (ends : request.Ends ended)
    (printed : request.PrintedBy arguments environment files options)
    (read : Reading.ofFile bytes = .ok request.reading) (outDir : String)
    (whole : request.halved → ∀ code, ended = .ok code → holdsHalf code = false)
    (unbroken : ∀ key, ended ≠ .error (.emission (.unencodable key))) :
    ∃ outcome, compileFile options outDir bytes files = .ok outcome ∧ outcome.Tells ended := by
  unfold compileFile
  cases ends with
  | @source ws code loaded emitted =>
    have plain : (request.halved && holdsHalf code) = false := by
      cases isHalved : request.halved with
      | false => rfl
      | true => exact whole isHalved code rfl
    have halves : isHalved bytes = request.halved := isHalved_of_ofFile read
    rw [printed.loadFile_eq read loaded]
    dsimp only
    simp only [printed.strict, halves, emitted, plain, printed.printOnly, if_true,
      Bool.false_eq_true, if_false]
    refine ⟨_, rfl, ?_, ?_⟩ <;> simp
  | @schema error failed =>
    have fails : loadFile options bytes = .error ("Schema validation failed: " ++ error.message) := by
      simp only [loadFile, read, printed.oneBased, printed.strict, CompileRequest.reading, failed]
    rw [fails]
    refine ⟨_, rfl, ?_, ?_⟩ <;> simp
  | @edit error failed other =>
    have fails : loadFile options bytes = .error ("Invalid workspace: " ++ error.message) := by
      simp only [loadFile, read, printed.oneBased, printed.strict, CompileRequest.reading, failed]
    rw [fails]
    refine ⟨_, rfl, ?_, ?_⟩ <;> simp
  | unencodable => exact absurd rfl (unbroken _)

/-- A command that is to print a source does what comes of the file that it names. -/
theorem CompileRequest.PrintedBy.exists_run
    (printed : request.PrintedBy arguments environment files options) :
    ∃ bytes outDir least, Reading.ofFile bytes = .ok request.reading ∧
      runCommand arguments environment files = (compileFile options outDir bytes files).map fun outcome =>
        { outcome with log := logFrom least outcome.log } := by
  obtain ⟨settings, configured, level⟩ := printed.configured
  obtain ⟨least, leveled⟩ := Option.isSome_iff_exists.mp level
  obtain ⟨place, bytes, located, isFile, there, read⟩ := printed.held
  refine ⟨bytes, orElseText options.out settings.outDir, least, read, ?_⟩
  unfold runCommand runOptions
  simp only [printed.asked, configured, leveled, located, isFile, there]
  cases compileFile options (orElseText options.out settings.outDir) bytes files <;> rfl

/-- A command that is to print a source comes to an end, and what it leaves tells how the compilation
ended. -/
theorem CompileRequest.Ends.exists_run (ends : request.Ends ended)
    (printed : request.PrintedBy arguments environment files options)
    (whole : request.halved → ∀ code, ended = .ok code → holdsHalf code = false)
    (unbroken : ∀ key, ended ≠ .error (.emission (.unencodable key))) :
    ∃ outcome, runCommand arguments environment files = .ok outcome ∧ outcome.Tells ended := by
  obtain ⟨bytes, outDir, least, read, run⟩ := printed.exists_run
  obtain ⟨outcome, compiled, tells⟩ := ends.exists_outcome printed read outDir whole unbroken
  rw [run, compiled]
  exact ⟨_, rfl, tells.source, tells.failed⟩

/-- A name that breaks the compilation off breaks the command off. -/
theorem CompileRequest.PrintedBy.run_of_unencodable
    (printed : request.PrintedBy arguments environment files options) {key : String}
    (ends : request.Ends (.error (.emission (.unencodable key)))) :
    runCommand arguments environment files = .error (.emission (.unencodable key)) := by
  obtain ⟨bytes, outDir, least, read, run⟩ := printed.exists_run
  obtain _ | _ | _ | ⟨_, loaded, broken⟩ := ends
  have halves : isHalved bytes = request.halved := isHalved_of_ofFile read
  rw [run]
  unfold compileFile
  rw [printed.loadFile_eq read loaded]
  simp only [printed.strict, halves, broken]
  rfl

end Command

/-- The service and the command agree with the compiler on every workspace of short numbers. If no name breaks
the compilation off, and what is to be answered can be written, the service answers with the source just if
there is one, tells a value that is no document from one that is refused, and knows no other answer; the
command prints just that source, and nothing where there is none. A name can break it off only if it has a
lone half of a surrogate pair. This is an error inside the service, and ends the command. -/
theorem front_ends_agree {request : CompileRequest} (proper : request.workspace.All Json.IsProper)
    (short : request.workspace.All Json.IsShort) {framework : WebFramework} (delivers : framework.Delivers)
    {body : List UInt8} (held : request.HeldBy body) {arguments : List String} {environment : Table String}
    {files : Files} {options : CommandOptions}
    (printed : request.PrintedBy arguments environment files options) :
    ((request.halved → request.handle.IsWritable) →
      (∀ key, request.ended ≠ .error (.emission (.unencodable key))) →
        (framework CompileRequest.handle body).Tells request ∧
          ∃ outcome, runCommand arguments environment files = .ok outcome ∧ outcome.Tells request.ended) ∧
      ∀ key, request.ended = .error (.emission (.unencodable key)) →
        request.halved ∧ (framework CompileRequest.handle body).status = 500 ∧
          runCommand arguments environment files = .error (.emission (.unencodable key)) := by
  have ends := CompileRequest.ends proper short
  refine ⟨fun whole unbroken => ⟨delivers.tells held ends whole unbroken, ?_⟩, fun key broken => ?_⟩
  · refine ends.exists_run printed (fun halves code source => ?_) unbroken
    rw [source] at ends
    exact ends.holdsHalf_eq_false (whole halves)
  · rw [broken] at ends
    have fails := delivers.status_of_unencodable held ends
    have breaks := printed.run_of_unencodable ends
    obtain _ | _ | _ | ⟨halves, _, _⟩ := ends
    exact ⟨halves, fails, breaks⟩

/-- What a body is read as can be found out by running the reader. -/
theorem CompileRequest.heldBy_of_any {request : CompileRequest} {body : List UInt8} {members : Table Json}
    (reads : (readUtf8 body).toOption.any fun text => (Reading.ofText (some digitLimit) text).toOption.any
    fun reading =>
      reading.data.isSame (.object members) && reading.halved == request.halved)
    (given : request.GivenBy members) : request.HeldBy body := by
  obtain ⟨text, decoded, reads⟩ := exists_ok_of_any reads
  obtain ⟨⟨data, halved⟩, read, same⟩ := exists_ok_of_any reads
  obtain ⟨same, halves⟩ := Bool.and_eq_true_iff.mp same
  obtain rfl : data = .object members := Json.eq_of_isSame same
  obtain rfl : halved = request.halved := beq_iff_eq.mp halves
  exact ⟨text, members, decoded, read, given⟩

/-- What a file is read as can be found out in the same way. -/
theorem Reading.ofFile_of_any {reading : Reading} {bytes : List UInt8}
    (reads : (Reading.ofFile bytes).toOption.any fun found =>
      found.data.isSame reading.data && found.halved == reading.halved) :
    Reading.ofFile bytes = .ok reading := by
  obtain ⟨⟨data, halved⟩, read, same⟩ := exists_ok_of_any reads
  obtain ⟨same, halves⟩ := Bool.and_eq_true_iff.mp same
  obtain rfl : data = reading.data := Json.eq_of_isSame same
  obtain rfl : halved = reading.halved := beq_iff_eq.mp halves
  exact read

/-- A program that prints a text, sent to the service and read from a file. -/
theorem front_ends_agree_print :
    let shown := "\x7b\"name\":\"w\",\"blocks\":[\x7b\"type\":\"text_print\"\x7d]\x7d"
    let sent := "\x7b\"workspace\":" ++ shown ++ ",\"strict\":true\x7d"
    let data := Json.object [("name", .text "w"), ("blocks", .list [.object [("type", .text "text_print")]])]
    let request : CompileRequest := { workspace := data, strict := true }
    let arguments := ["w.json", "--print", "--strict"]
    let files : Files := { contents := [({ names := ["w.json"] }, shown.toUTF8.toList)] }
    data.All Json.IsProper ∧ data.All Json.IsShort ∧ WebFramework.plain.Delivers ∧
      request.HeldBy sent.toUTF8.toList ∧ ∃ options, request.PrintedBy arguments [] files options ∧
        (WebFramework.plain CompileRequest.handle sent.toUTF8.toList).Tells request ∧
          ∃ outcome, runCommand arguments [] files = .ok outcome ∧ outcome.Tells request.ended := by
  intro shown sent data request arguments files
  have noNumbers : ∀ text ∈ ["w", "text_print"], (numberOf (.text text)).toOption.isNone := by decide +kernel
  have words := fun text member => Json.isShort_text (noNumbers text member)
  have proper : data.All Json.IsProper := by
    simp [data, Json.All, Json.AllMembers, Json.AllItems, Json.IsProper, Table.keys]
  have short : data.All Json.IsShort := by
    simp [data, Json.All, Json.AllMembers, Json.AllItems, words]
    simp [Json.IsShort]
  have given : request.GivenBy [("workspace", data), ("strict", .bool true)] :=
    ⟨⟨_, rfl, by simp [Table.get?, data]⟩, by simp [Table.get?, request], by simp [Table.get?, request]⟩
  have held : request.HeldBy sent.toUTF8.toList := CompileRequest.heldBy_of_any (by decide +kernel) given
  have read : Reading.ofFile shown.toUTF8.toList = .ok request.reading :=
    Reading.ofFile_of_any (by decide +kernel)
  have printed :
      request.PrintedBy arguments [] files { file := "w.json", printOnly := true, strict := true } :=
    ⟨rfl, rfl, rfl, rfl, ⟨{}, rfl, by decide +kernel⟩, { names := ["w.json"] }, _, rfl, rfl, rfl, read⟩
  have compiles : request.ended.toOption.isSome := by decide +kernel
  have unbroken : ∀ key, request.ended ≠ .error (.emission (.unencodable key)) := by
    intro key broken
    rw [broken] at compiles
    cases compiles
  have whole : request.halved → request.handle.IsWritable := fun halves => absurd halves Bool.false_ne_true
  have agree := (front_ends_agree proper short WebFramework.delivers_plain held printed).1 whole unbroken
  exact ⟨proper, short, WebFramework.delivers_plain, held, _, printed, agree⟩

/-- A document whose only variable is called by a lone half of a surrogate pair. What the compiler raises is
no refusal, so the service does not answer that the request is bad, and the command does not come to an
end. -/
theorem front_ends_disagree_lone :
    let block := "\x7b\"type\":\"variables_set\",\"fields\":\x7b\"VAR\":\"\\ud800\"\x7d\x7d"
    let shown := "\x7b\"name\":\"w\",\"blocks\":[" ++ block ++ "]\x7d"
    let sent := "\x7b\"workspace\":" ++ shown ++ "\x7d"
    let half := String.singleton (standIn 0xd800)
    let data := Json.object [("name", .text "w"), ("blocks", .list [.object [("type", .text "variables_set"),
      ("fields", .object [("VAR", .text half)])]])]
    let request : CompileRequest := { workspace := data, halved := true }
    let arguments := ["w.json", "--print"]
    let files : Files := { contents := [({ names := ["w.json"] }, shown.toUTF8.toList)] }
    let broken := EmissionError.unencodable (nameKey half .variable)
    request.HeldBy sent.toUTF8.toList ∧ request.ended = .error (.emission broken) ∧
      (∀ framework : WebFramework, framework.Delivers →
        (framework CompileRequest.handle sent.toUTF8.toList).status = 500) ∧
      runCommand arguments [] files = .error (.emission broken) := by
  intro block shown sent half data request arguments files broken
  have given : request.GivenBy [("workspace", data)] :=
    ⟨⟨_, rfl, by simp [Table.get?, data]⟩, by simp [Table.get?, request], by simp [Table.get?, request]⟩
  have held : request.HeldBy sent.toUTF8.toList := CompileRequest.heldBy_of_any (by decide +kernel) given
  have read : Reading.ofFile shown.toUTF8.toList = .ok request.reading :=
    Reading.ofFile_of_any (by decide +kernel)
  have printed : request.PrintedBy arguments [] files { file := "w.json", printOnly := true } :=
    ⟨rfl, rfl, rfl, rfl, ⟨{}, rfl, by decide +kernel⟩, { names := ["w.json"] }, _, rfl, rfl, rfl, read⟩
  have loads : (loadWorkspace false none data).toOption.any fun ws =>
      ({ strict := false } : Emitter).halvedKey? ws = some (nameKey half .variable) := by decide +kernel
  obtain ⟨ws, loaded, asked⟩ := exists_ok_of_any loads
  have asked : ({ strict := false } : Emitter).halvedKey? ws = some (nameKey half .variable) := by
    simpa using asked
  have breaks : (Emitter.sourceAmong true { strict := false } ws).1 = .error broken := by
    rw [Emitter.sourceAmong_of_halvedKey? asked]
  have ends : request.Ends (.error (.emission broken)) := .unencodable rfl loaded breaks
  refine ⟨held, ?_, fun framework delivers => delivers.status_of_unencodable held ends,
    printed.run_of_unencodable ends⟩
  simp only [request, CompileRequest.ended, Reading.compile, CompileRequest.reading, loaded, breaks]
  rfl

end BlockCompiler

import BlockCompiler.Document.Building
import BlockCompiler.Emission.Emitter
import BlockCompiler.Json.Reader
import BlockCompiler.Workspace.Position

/-!
Sources: the complete text that is generated for a workspace.
-/

namespace BlockCompiler

/-- What stands above the code: the definitions that import something, one below the other, then the
others with blank lines between them. -/
def preamble (definitions : List String) : String :=
  let (imports, others) := definitions.partition isImport
  let text := joinTexts "\n" imports ++ "\n\n" ++ joinTexts "\n\n" others
  String.ofList (dropLineFeedsAtEnd (collapseBlankLines text.toList))

namespace Emission

/-- Put the definitions of the pass above a code, and clear the pass. -/
def finish (code : String) : Emission String := do
  let pass ← get
  set pass.clear
  return preamble (pass.definitions.map (·.2)) ++ "\n\n\n" ++ code

end Emission

/-- An expression as a statement of its own. -/
def nakedValue (code : String) : String := code ++ ";\n"

/-- A source without blank lines at its two ends and without blanks at the ends of its lines. -/
def tidy (source : String) : String :=
  String.ofList (trimLineEnds (closeWithLineFeed (dropOpeningBlankLines source.toList)))

namespace Emitter

/-- A pass that knows no workspace. -/
def bareStart (emitter : Emitter) : Pass := { names := Registry.ofReserved emitter.reserved "" }

/-- A pass over a workspace at its start. The variables of the workspace are declared in one definition. -/
def start (emitter : Emitter) (ws : Workspace) : Pass :=
  let pass := { emitter.bareStart with oneBased := ws.oneBased }
  if ws.declared.isEmpty then pass
  else
    let (declared, names) := pass.names.getNames (ws.declared.map (·.name)) .variable
    { pass with names }.define "variables" ("var " ++ joinTexts ", " declared ++ ";")

/-- Do something in a pass over a workspace, which is cleared at the end whatever happens. -/
def inPass {α : Type} (emitter : Emitter) (ws : Workspace) (body : Emission α) :
    Except EmissionError α × Pass :=
  let (result, pass) := body.run (emitter.start ws)
  (result, pass.clear)

/-- The code of one stack at the top of a workspace. -/
def emitTop (emitter : Emitter) (ws : Workspace) (b : Nat) : Emission String := do
  let code := (← emitter.emitBlock ws (some b)).code
  return if code ≠ "" ∧ (ws.block b).output.isSome then nakedValue code else code

/-- The code of all stacks of a workspace, from top to bottom. -/
def emitTops (emitter : Emitter) (ws : Workspace) : Emission String := do
  match ws.orderedTopBlocks? with
  | none => throw .unordered
  | some tops =>
    let codes ← tops.mapM (emitter.emitTop ws)
    return joinTexts "\n" (codes.filter (· ≠ ""))

/-- The source of a workspace, and the pass it leaves. -/
def source (emitter : Emitter) (ws : Workspace) : Except EmissionError String × Pass :=
  emitter.inPass ws do return tidy (← Emission.finish (← emitter.emitTops ws))

/-- The first of the names that are asked for, by its key, in which a character stands in for a lone half of a
surrogate pair. The keys of all names that a pass asks for are kept in the order of the first requests. -/
def halvedKey? (emitter : Emitter) (ws : Workspace) : Option String :=
  ((emitter.emitTops ws).run (emitter.start ws)).2.names.assigned.keys.find? holdsHalf

/-- The source of a workspace, and the pass it leaves, where characters may stand in for lone halves of
surrogate pairs. An identifier is made of the bytes of its name in UTF-8, so asking for a name with such a
half breaks off. -/
def sourceAmong (halved : Bool) (emitter : Emitter) (ws : Workspace) : Except EmissionError String × Pass :=
  match halved, emitter.halvedKey? ws with
  | true, some key => (.error (.unencodable key), (emitter.source ws).2)
  | _, _ => emitter.source ws

@[simp] theorem sourceAmong_false (emitter : Emitter) (ws : Workspace) :
    emitter.sourceAmong false ws = emitter.source ws := rfl

theorem sourceAmong_of_halvedKey? {emitter : Emitter} {ws : Workspace} {key : String}
    (found : emitter.halvedKey? ws = some key) :
    emitter.sourceAmong true ws = (.error (.unencodable key), (emitter.source ws).2) := by
  simp only [sourceAmong, found]

theorem sourceAmong_of_halvedKey?_eq_none {emitter : Emitter} {ws : Workspace} (halved : Bool)
    (found : emitter.halvedKey? ws = none) : emitter.sourceAmong halved ws = emitter.source ws := by
  simp only [sourceAmong, found]

/-- A source that is found is the same without regard to halves. -/
theorem source_of_sourceAmong {halved : Bool} {emitter : Emitter} {ws : Workspace} {source : String}
    (found : (emitter.sourceAmong halved ws).1 = .ok source) : (emitter.source ws).1 = .ok source := by
  unfold sourceAmong at found
  split at found
  · cases found
  · exact found

end Emitter

/-- Why a value is not compiled. -/
inductive CompileError where
  | load (error : LoadError)
  | emission (error : EmissionError)

/-- The source of the program that a value describes. -/
def compile (strict : Bool) (oneBased : Option Bool) (value : Json) : Except CompileError String :=
  match loadWorkspace strict oneBased value with
  | .error error => .error (.load error)
  | .ok ws =>
    match (Emitter.source { strict } ws).1 with
    | .error error => .error (.emission error)
    | .ok source => .ok source

/-- The source of the program that something read describes. -/
def Reading.compile (reading : Reading) (strict : Bool) (oneBased : Option Bool) :
    Except CompileError String :=
  match loadWorkspace strict oneBased reading.data with
  | .error error => .error (.load error)
  | .ok ws => (Emitter.sourceAmong reading.halved { strict } ws).1.mapError .emission

end BlockCompiler

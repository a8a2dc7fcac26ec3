import BlockCompiler.Emission.Source
import BlockCompiler.Settings

/-!
The compile service: what it makes of the requests that a web framework hands to it.
-/

namespace BlockCompiler

/-- A request to compile. -/
structure CompileRequest where
  workspace : Json
  /-- Whether characters stand in for lone halves of surrogate pairs in it. -/
  halved : Bool := false
  strict : Bool := false
  oneBased : Option Bool := none

/-- What the service leaves to the framework: a value to be sent, a refusal with its status and what went
wrong, or an error that it does not catch. -/
inductive Handled where
  | value (body : Json)
  | refused (status : Nat) (detail : String)
  | broken (error : EmissionError)

/-- Compile the workspace of a request. Only errors that say that it does not fit are caught. -/
def CompileRequest.handle (request : CompileRequest) : Handled :=
  match loadWorkspace request.strict request.oneBased request.workspace with
  | .error (.schema error) => .refused 422 error.message
  | .error (.edit error) => .refused 400 error.message
  | .ok ws =>
    match (Emitter.sourceAmong request.halved { strict := request.strict } ws).1 with
    | .error error => if error.isRefusal then .refused 400 error.message else .broken error
    | .ok code =>
      .value (.object [("name", .text ws.name), ("blocks", .int ws.members.length), ("code", .text code)])

/-- The known block types: which of them are values, and which can be compiled. -/
def blockTypes : Json :=
  .list (BlockKind.all.map fun kind =>
    .object [("type", .text kind.name), ("value", .bool kind.shape.isValue),
      ("compilable", .bool (knownTemplates.has kind.name))])

/-- What the service tells of its settings. -/
def Settings.shown (settings : Settings) : Json :=
  .object [("appName", .text settings.appName), ("baseUrl", .text settings.baseUrl)]

/-- What the service tells of itself. -/
def health : Json := .object [("status", .text "ok")]

end BlockCompiler

import BlockCompiler.Document.File
import BlockCompiler.Proofs.Document.Refused
import BlockCompiler.Proofs.Emission.Halved
import BlockCompiler.Service.Routes

/-!
What the service answers. A compilation ends with a source, or the value is no document, or it is refused, or
a name breaks it off, and each of these ends is handed to the web framework in its own way. Of the framework
it is only known what it does with requests that it reads and with what the service leaves to it.
-/

namespace BlockCompiler

/-- Whether a compilation refused a value that is a document: its blocks do not fit together, or no template
takes one of them. -/
def CompileError.isRefusal : CompileError → Bool
  | .load (.schema _) => false
  | .load (.edit error) => !error.isCount
  | .emission error => error.isRefusal

/-- Whether a compilation failed at the schema. -/
def CompileError.isSchema : CompileError → Bool
  | .load (.schema _) => true
  | _ => false

namespace CompileRequest

/-- What is to be compiled. -/
def reading (request : CompileRequest) : Reading := ⟨request.workspace, request.halved⟩

/-- How the compilation of a request ends. -/
def ended (request : CompileRequest) : Except CompileError String :=
  request.reading.compile request.strict request.oneBased

/-- All ends of a compilation: the source of the workspace that is loaded, why none is loaded, or the name of
the workspace that breaks it off. -/
inductive Ends (request : CompileRequest) : Except CompileError String → Prop where
  | source {ws code} (loaded : loadWorkspace request.strict request.oneBased request.workspace = .ok ws)
      (emitted : (Emitter.sourceAmong request.halved { strict := request.strict } ws).1 = .ok code) :
      Ends request (.ok code)
  | schema {error} (failed : loadWorkspace request.strict request.oneBased request.workspace =
      .error (.schema error)) :
      Ends request (.error (.load (.schema error)))
  | edit {error} (failed : loadWorkspace request.strict request.oneBased request.workspace =
      .error (.edit error))
      (other : error.isCount = false) : Ends request (.error (.load (.edit error)))
  | unencodable {ws key} (halves : request.halved)
      (loaded : loadWorkspace request.strict request.oneBased request.workspace = .ok ws)
      (broken : (Emitter.sourceAmong request.halved { strict := request.strict } ws).1 =
        .error (.unencodable key)) :
      Ends request (.error (.emission (.unencodable key)))

/-- There is no other end. -/
theorem ends {request : CompileRequest} (proper : request.workspace.All Json.IsProper)
    (short : request.workspace.All Json.IsShort) : request.Ends request.ended := by
  unfold ended Reading.compile reading
  cases loaded : loadWorkspace request.strict request.oneBased request.workspace with
  | error error =>
    cases error with
    | schema error => exact .schema loaded
    | edit error => exact .edit loaded (EditError.isCount_of_isUnfit (isUnfit_loadWorkspace proper loaded))
  | ok ws =>
    dsimp only
    cases found : (Emitter.sourceAmong request.halved { strict := request.strict } ws).1 with
    | ok code => exact .source loaded found
    | error error =>
      obtain ⟨halves, key, rfl⟩ := Emitter.error_of_sourceAmong loaded proper short found
      exact .unencodable halves loaded found

end CompileRequest

/-- An answer of the service. -/
structure Response where
  status : Nat
  body : Json

/-- The answer with some detail about what went wrong. -/
def Response.detail (status : Nat) (text : String) : Response := ⟨status, .object [("detail", .text text)]⟩

/-- The answer with the source of a workspace. -/
def Response.compiled (ws : Workspace) (code : String) : Response :=
  ⟨200, .object [("name", .text ws.name), ("blocks", .int ws.members.length), ("code", .text code)]⟩

/-- A text, and each key of an object, has no lone half of a surrogate pair if characters stand in for
these. -/
def Json.IsWritable : Json → Prop
  | .text found => holdsHalf found = false
  | .object members => ∀ key ∈ Table.keys members, holdsHalf key = false
  | _ => True

/-- What is left to the framework has no such half. -/
inductive Handled.IsWritable : Handled → Prop where
  | value {body} (whole : body.All Json.IsWritable) : IsWritable (.value body)
  | refused {status detail} (whole : holdsHalf detail = false) : IsWritable (.refused status detail)
  | broken {error} : IsWritable (.broken error)

/-- A web framework: what it answers to the body of a request, which it hands to a handler of its own
accord. -/
abbrev WebFramework := (CompileRequest → Handled) → List UInt8 → Response

/-- The members of an object give a request. The workspace is an object, and what else may be missing is the
truth value it should be. -/
structure CompileRequest.GivenBy (request : CompileRequest) (members : Table Json) : Prop where
  workspace : ∃ inner, request.workspace = .object inner ∧ members.get? "workspace" = some (.object inner)
  strict : (members.get? "strict").getD (.bool false) = .bool request.strict
  oneBased : (members.get? "one_based_index").getD .null = request.oneBased.elim .null .bool

/-- A body holds a request: in UTF-8, the JSON of an object that gives it. -/
def CompileRequest.HeldBy (request : CompileRequest) (body : List UInt8) : Prop :=
  ∃ text members, readUtf8 body = .ok text ∧
    Reading.ofText (some digitLimit) text = .ok ⟨.object members, request.halved⟩ ∧ request.GivenBy members

/-- What the service relies on. The framework hands the request that a body holds to the handler. It sends the
value that it is given, or the status and the detail of a refusal, if these can be written. An error that the
handler does not catch is answered with status 500. -/
structure WebFramework.Delivers (framework : WebFramework) : Prop where
  value : ∀ {handler request body answer}, request.HeldBy body → handler request = .value answer →
    answer.isStandard → (request.halved → answer.All Json.IsWritable) → framework handler body = ⟨200, answer⟩
  refused : ∀ {handler request body status detail}, request.HeldBy body →
    handler request = .refused status detail →
    (request.halved → holdsHalf detail = false) → framework handler body = .detail status detail
  broken : ∀ {handler request body error}, request.HeldBy body → handler request = .broken error →
    (framework handler body).status = 500

/-- A response tells how the compilation of a request ended. -/
structure Response.Tells (response : Response) (request : CompileRequest) : Prop where
  /-- There is a source just if the response has it, with the name and the count of blocks of the
  workspace. -/
  source : ∀ code, request.ended = .ok code ↔
    ∃ ws, loadWorkspace request.strict request.oneBased request.workspace = .ok ws ∧
      response = .compiled ws code
  compiled : response.status = 200 ↔ ∃ code, request.ended = .ok code
  schema : response.status = 422 ↔ ∃ error, request.ended = .error error ∧ error.isSchema
  refused : response.status = 400 ↔ ∃ error, request.ended = .error error ∧ error.isRefusal
  nothingElse : response.status = 200 ∨ response.status = 422 ∨ response.status = 400

section Answers

variable {framework : WebFramework} {request : CompileRequest} {body : List UInt8}

namespace CompileRequest

variable {ws : Workspace}

theorem handle_of_emitted {code : String}
    (loaded : loadWorkspace request.strict request.oneBased request.workspace = .ok ws)
    (emitted : (Emitter.sourceAmong request.halved { strict := request.strict } ws).1 = .ok code) :
    request.handle = .value (Response.compiled ws code).body := by
  simp only [handle, loaded, emitted]
  rfl

theorem handle_of_unencodable {key : String}
    (loaded : loadWorkspace request.strict request.oneBased request.workspace = .ok ws)
    (broken : (Emitter.sourceAmong request.halved { strict := request.strict } ws).1 =
      .error (.unencodable key)) :
    request.handle = .broken (.unencodable key) := by
  simp only [handle, loaded, broken]
  rfl

theorem handle_of_schema {error : SchemaError}
    (failed : loadWorkspace request.strict request.oneBased request.workspace = .error (.schema error)) :
    request.handle = .refused 422 error.message := by
  simp only [handle, failed]

theorem handle_of_edit {error : EditError}
    (failed : loadWorkspace request.strict request.oneBased request.workspace = .error (.edit error)) :
    request.handle = .refused 400 error.message := by
  simp only [handle, failed]

end CompileRequest

/-- A source without halves is part of an answer without halves. -/
theorem CompileRequest.Ends.holdsHalf_eq_false {code : String} (ends : request.Ends (.ok code))
    (whole : request.handle.IsWritable) : holdsHalf code = false := by
  obtain ⟨loaded, emitted⟩ := ends
  rw [CompileRequest.handle_of_emitted loaded emitted] at whole
  obtain ⟨_, _, _, wholeCode, _⟩ := whole
  exact wholeCode

namespace WebFramework.Delivers

/-- A source is sent with the name and the count of blocks of its workspace. -/
theorem eq_compiled (delivers : framework.Delivers) (held : request.HeldBy body) {ws : Workspace}
    {code : String} (handled : request.handle = .value (Response.compiled ws code).body)
    (whole : request.halved → request.handle.IsWritable) :
    framework CompileRequest.handle body = .compiled ws code := by
  refine delivers.value held handled rfl fun halves => ?_
  rw [handled] at whole
  obtain ⟨written⟩ := whole halves
  exact written

/-- A refusal is sent with its status. -/
theorem eq_detail (delivers : framework.Delivers) (held : request.HeldBy body) {status : Nat}
    {detail : String} (handled : request.handle = .refused status detail)
    (whole : request.halved → request.handle.IsWritable) :
    framework CompileRequest.handle body = .detail status detail := by
  refine delivers.refused held handled fun halves => ?_
  rw [handled] at whole
  obtain _ | ⟨written⟩ := whole halves
  exact written

/-- If no name breaks the compilation off and the answer can be written, it tells how the compilation ends. -/
theorem tells (delivers : framework.Delivers) (held : request.HeldBy body)
    (ends : request.Ends request.ended) (whole : request.halved → request.handle.IsWritable)
    (unbroken : ∀ key, request.ended ≠ .error (.emission (.unencodable key))) :
    (framework CompileRequest.handle body).Tells request := by
  generalize isEnded : request.ended = result at ends unbroken
  cases ends with
  | source loaded emitted =>
    have answers := delivers.eq_compiled held (CompileRequest.handle_of_emitted loaded emitted) whole
    constructor <;> rw [answers] <;> simp [isEnded, Response.compiled, loaded]
  | schema failed =>
    have answers := delivers.eq_detail held (CompileRequest.handle_of_schema failed) whole
    constructor <;> rw [answers] <;>
      simp [isEnded, Response.detail, CompileError.isSchema, CompileError.isRefusal, failed]
  | edit failed other =>
    have answers := delivers.eq_detail held (CompileRequest.handle_of_edit failed) whole
    constructor <;> rw [answers] <;>
      simp [isEnded, Response.detail, CompileError.isSchema, CompileError.isRefusal, failed, other]
  | unencodable => exact absurd rfl (unbroken _)

/-- If a name breaks the compilation off, the error is not caught. -/
theorem status_of_unencodable (delivers : framework.Delivers)
    (held : request.HeldBy body) {key : String}
    (ends : request.Ends (.error (.emission (.unencodable key)))) :
    (framework CompileRequest.handle body).status = 500 := by
  obtain _ | _ | _ | ⟨_, loaded, broken⟩ := ends
  exact delivers.broken held (CompileRequest.handle_of_unencodable loaded broken)

end WebFramework.Delivers

end Answers

section Plain

/-- The request that the members of an object give. -/
def CompileRequest.ofMembers? (halved : Bool) (members : Table Json) : Option CompileRequest :=
  match members.get? "workspace", (members.get? "strict").getD (.bool false),
    (members.get? "one_based_index").getD .null with
  | some (.object inner), .bool strict, .null => some ⟨.object inner, halved, strict, none⟩
  | some (.object inner), .bool strict, .bool oneBased => some ⟨.object inner, halved, strict, some oneBased⟩
  | _, _, _ => none

theorem CompileRequest.GivenBy.ofMembers? {request : CompileRequest} {members : Table Json}
    (given : request.GivenBy members) : CompileRequest.ofMembers? request.halved members = some request := by
  obtain ⟨⟨inner, same, found⟩, strict, oneBased⟩ := given
  obtain ⟨workspace, halved, isStrict, based⟩ := request
  unfold CompileRequest.ofMembers?
  simp only at same strict oneBased ⊢
  rw [found, strict, oneBased, same]
  cases based <;> rfl

/-- A framework that does what the service relies on, and calls every other body unprocessable. -/
def WebFramework.plain : WebFramework := fun handler body =>
  let request? := do
    let reading ← (Reading.ofText (some digitLimit) (← (readUtf8 body).toOption)).toOption
    CompileRequest.ofMembers? reading.halved reading.data.members
  match request?.map handler with
  | none => .detail 422 "Unprocessable Entity"
  | some (.value answer) => ⟨200, answer⟩
  | some (.refused status detail) => .detail status detail
  | some (.broken _) => ⟨500, .text "Internal Server Error"⟩

theorem WebFramework.delivers_plain : WebFramework.plain.Delivers := by
  have reads {request : CompileRequest} {body : List UInt8} (held : request.HeldBy body) :
      (do
        let reading ← (Reading.ofText (some digitLimit) (← (readUtf8 body).toOption)).toOption
        CompileRequest.ofMembers? reading.halved reading.data.members) = some request := by
    obtain ⟨text, members, decoded, read, given⟩ := held
    simp [decoded, read, Except.toOption, Json.members, given.ofMembers?]
  constructor
  · intro handler request body answer held handled _ _
    simp only [WebFramework.plain, reads held, Option.map_some, handled]
  · intro handler request body status detail held handled _
    simp only [WebFramework.plain, reads held, Option.map_some, handled]
  · intro handler request body error held handled
    simp only [WebFramework.plain, reads held, Option.map_some, handled]

end Plain

end BlockCompiler

import BlockCompiler.Emission.Template.Control
import BlockCompiler.Emission.Template.Logic
import BlockCompiler.Emission.Template.Math
import BlockCompiler.Emission.Template.Text

/-!
Emitters: generating the code of stacks by the templates of their blocks.
-/

namespace BlockCompiler

/-- The template of each kind of block. -/
def BlockKind.template : BlockKind → Template
  | .number => Template.number
  | .arithmetic => Template.arithmetic
  | .single => Template.single
  | .change => Template.change
  | .randomInt => Template.randomInt
  | .boolean => Template.boolean
  | .compare => Template.compare
  | .operation => Template.operation
  | .negate => Template.negate
  | .ternary => Template.ternary
  | .text => Template.text
  | .join => Template.join
  | .print => Template.print
  | .readVariable => Template.readVariable
  | .setVariable => Template.setVariable
  | .branch => Template.branch
  | .repeatTimes => Template.repeatTimes
  | .whileUntil => Template.whileUntil
  | .createList => Template.createList
  | .getIndex => Template.getIndex
  | .defineProcedure => Template.defineProcedure
  | .callProcedure => Template.callProcedure

/-- The templates of all kinds. -/
def knownTemplates : Table Template := BlockKind.all.map fun kind => (kind.name, kind.template)

/-- Words that names never become: those of the language, and those of its core libraries. -/
def reservedWords : List String :=
  ["assert", "break", "case", "catch", "class", "const", "continue", "default", "do", "else", "enum",
    "extends", "false", "final", "finally", "for", "if", "in", "is", "new", "null", "rethrow", "return",
    "super", "switch", "this", "throw", "true", "try", "var", "void", "while", "with",
    "auto", "bool", "char", "delete", "double", "float", "include", "int", "long", "namespace", "nullptr",
    "operator", "private", "protected", "public", "short", "signed", "sizeof", "static", "std", "struct",
    "template", "typedef", "typename", "union", "unsigned", "using", "virtual",
    "print", "identityHashCode", "identical", "BidirectionalIterator", "Comparable",
    "Function", "Invocation", "Iterable", "Iterator", "List", "Map", "Match", "num",
    "Pattern", "RegExp", "Set", "StackTrace", "String", "StringSink", "Type", "DateTime",
    "Deprecated", "Duration", "Expando", "Null", "Object", "RuneIterator", "Runes", "Stopwatch",
    "StringBuffer", "Symbol", "Uri", "Comparator", "AbstractClassInstantiationError",
    "ArgumentError", "AssertionError", "CastError", "ConcurrentModificationError",
    "CyclicInitializationError", "Error", "Exception", "FallThroughError",
    "FormatException", "IntegerDivisionByZeroException", "NoSuchMethodError",
    "NullThrownError", "OutOfMemoryError", "RangeError", "StackOverflowError",
    "StateError", "TypeError", "UnimplementedError", "UnsupportedError"]

/-- An emitter. A strict one refuses blocks that no template is for; others let a placeholder stand in. -/
structure Emitter where
  templates : Table Template := knownTemplates
  strict : Bool := false
  reserved : List String := reservedWords

namespace Emitter

/-- The template of a block type. -/
def templateOf (emitter : Emitter) (type : String) : Emission Template := do
  match emitter.templates.get? type with
  | some template => return template
  | none =>
    if emitter.strict then throw (.noTemplate type)
    modify fun pass => { pass with placeholders := type :: pass.placeholders }
    return Template.placeholder

/-- The code of the block at a site and of the stack below it. -/
def emitSite (emitter : Emitter) (site : Site) : Emission Output := do
  let template ← emitter.templateOf site.head.type
  match ← template site with
  | some (.value code order) => return .value (← site.finish code) order
  | some (.statements code) => return .statements (← site.finish code)
  | none => return .statements ""

mutual

/-- The code of a stack. Disabled blocks are passed over. -/
def emit (emitter : Emitter) : Stack BlockHead RowHead → Emission Output
  | .empty => return .statements ""
  | .block head rows next =>
    if head.disabled then emit emitter next
    else emitter.emitSite ⟨head, sockets emitter rows, emit emitter next⟩

/-- The sockets of a block at its site. -/
def sockets (emitter : Emitter) : Rows BlockHead RowHead → List Socket
  | .nil => []
  | .cons row plugged rest =>
    ⟨row.kind, row.name, plugged.head?.map (·.type), plugged.comments, emit emitter plugged⟩ ::
      sockets emitter rest

end

/-- The site of the first block of a stack. -/
def site? (emitter : Emitter) : Stack BlockHead RowHead → Option Site
  | .empty => none
  | .block head rows next => some ⟨head, emitter.sockets rows, emitter.emit next⟩

/-- The code of the stack that starts at a block of a workspace. -/
def emitBlock (emitter : Emitter) (ws : Workspace) (b : Option Nat) : Emission Output :=
  match ws.stack? b with
  | some stack => emitter.emit stack
  | none => throw .cyclic

end Emitter

end BlockCompiler

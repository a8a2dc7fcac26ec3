import BlockCompiler.Text.Lines
import BlockCompiler.Unicode.Digit

/-!
Reading the arguments of a command: one file name, and options before and after it.
-/

namespace BlockCompiler

/-- What a command is asked to do. -/
structure CommandOptions where
  file : String
  out : Option String := none
  printOnly : Bool := false
  strict : Bool := false
  oneBased : Bool := false
  logLevel : Option String := none

/-- Why there is nothing to do: help is asked for, or the arguments make no sense. -/
inductive UsageStop where
  | help
  | misuse
  deriving DecidableEq, Repr

/-- The options. -/
inductive CommandOption where
  | help
  | out
  | print
  | strict
  | oneBased
  | logLevel
  deriving DecidableEq, Repr

namespace CommandOption

/-- The ways to write options. -/
def spellings : List (String × CommandOption) :=
  [("-h", .help), ("--help", .help), ("--out", .out), ("--print", .print), ("--strict", .strict),
    ("--one-based", .oneBased), ("--log-level", .logLevel)]

/-- Whether an option has a value. -/
def hasValue : CommandOption → Bool
  | .out | .logLevel => true
  | _ => false

end CommandOption

/-- An argument by its look: something to work on, the mark after which all arguments are such, an
option, perhaps with a value behind an equals sign, or an option that there is not. -/
inductive ArgumentForm where
  | operand (text : String)
  | endOfOptions
  | option (option : CommandOption) (value : Option String)
  | unknown
  deriving DecidableEq, Repr

/-- Whether a text looks like a negative number. A line feed may end it. -/
def looksNegative (text : List Char) : Bool :=
  match dropLineFeedAtEnd text with
  | '-' :: body =>
    let whole := body.takeWhile isDigit
    match body.drop whole.length with
    | [] => !whole.isEmpty
    | '.' :: fraction => !fraction.isEmpty && fraction.all isDigit
    | _ => false
  | _ => false

/-- Split an argument at its first equals sign into the name of an option and the value attached to it. -/
def splitArgument (text : List Char) : List Char × Option String :=
  let name := text.takeWhile (· ≠ '=')
  match text.drop name.length with
  | [] => (name, none)
  | _ :: value => (name, some (String.ofList value))

/-- The form of an option with a value attached to it. Help takes none, but its letter may be repeated. -/
def ArgumentForm.attach (option : CommandOption) (spelling : List Char) (value : Option String) :
    ArgumentForm :=
  let repeats := spelling.length = 2 ∧ value.any fun text => text ≠ "" ∧ text.toList.all (· = 'h')
  .option option (if repeats then none else value)

/-- The form of an argument that spells no option out: an option cut short, if no other one starts alike, or
one of a single letter with a value right behind it. -/
def ArgumentForm.ofShortened (text : List Char) : Except UsageStop ArgumentForm :=
  let (name, value) := splitArgument text
  let longOnes :=
    if text.take 2 = ['-', '-'] then
      CommandOption.spellings.filter fun (spelling, _) => name.isPrefixOf spelling.toList
    else []
  match longOnes, CommandOption.spellings.lookup (String.ofList (text.take 2)) with
  | [(_, chosen)], _ => .ok (.option chosen value)
  | _ :: _, _ => .error .misuse
  | [], some chosen => .ok (.attach chosen (text.take 2) (some (String.ofList (text.drop 2))))
  | [], none =>
    if looksNegative text || text.contains ' ' then .ok (.operand (String.ofList text)) else .ok .unknown

/-- The form of an argument. -/
def ArgumentForm.ofText (text : String) : Except UsageStop ArgumentForm :=
  let chars := text.toList
  if text = "--" then .ok .endOfOptions
  else if chars.head? ≠ some '-' ∨ chars.length = 1 then .ok (.operand text)
  else
    let (name, value) := splitArgument chars
    match CommandOption.spellings.lookup (String.ofList name) with
    | some chosen => .ok (.attach chosen name value)
    | none => ArgumentForm.ofShortened chars

/-- The forms of all arguments. After the end of options everything is an operand. -/
def ArgumentForm.ofTexts : List String → Except UsageStop (List ArgumentForm)
  | [] => .ok []
  | text :: rest => do
    match ← ofText text with
    | .endOfOptions => return .endOfOptions :: rest.map .operand
    | form => return form :: (← ofTexts rest)

/-- Options read so far: the file may be missing still, and something may be left over. -/
structure CommandDraft where
  options : CommandOptions := { file := "" }
  hasFile : Bool := false
  leftOver : Bool := false

/-- Take an option with the value that belongs to it. -/
def CommandOptions.take (options : CommandOptions) (value : Option String) : CommandOption → CommandOptions
  | .help => options
  | .out => { options with out := value }
  | .print => { options with printOnly := true }
  | .strict => { options with strict := true }
  | .oneBased => { options with oneBased := true }
  | .logLevel => { options with logLevel := value }

/-- Take the file, or leave it over if there is one already. -/
def CommandDraft.takeFile (draft : CommandDraft) (file : String) : CommandDraft :=
  if draft.hasFile then { draft with leftOver := true }
  else { draft with options := { draft.options with file }, hasFile := true }

/-- Take an option with its value. -/
def CommandDraft.takeOption (draft : CommandDraft) (value : Option String) (option : CommandOption) :
    CommandDraft :=
  { draft with options := draft.options.take value option }

/-- Read arguments from left to right. The value of an option is attached to it or is the next operand; two
dashes attached to it stand for no value. The mark of the end of options may stand on either side of the
file. -/
def CommandDraft.read (draft : CommandDraft) : List ArgumentForm → Except UsageStop CommandDraft
  | [] => .ok draft
  | .operand file :: .endOfOptions :: rest => (draft.takeFile file).read rest
  | .endOfOptions :: .operand file :: rest => (draft.takeFile file).read rest
  | .operand file :: rest => (draft.takeFile file).read rest
  | .endOfOptions :: rest => CommandDraft.read { draft with leftOver := true } rest
  | .unknown :: rest => CommandDraft.read { draft with leftOver := true } rest
  | .option .help none :: _ => .error .help
  | .option chosen none :: rest =>
    if chosen.hasValue then
      match rest with
      | .operand value :: rest => (draft.takeOption (some value) chosen).read rest
      | _ => .error .misuse
    else (draft.takeOption none chosen).read rest
  | .option chosen (some value) :: rest =>
    if chosen.hasValue then
      (draft.takeOption (if value = "--" then none else some value) chosen).read rest
    else .error .misuse

/-- What the arguments ask for. -/
def CommandOptions.ofArguments (arguments : List String) : Except UsageStop CommandOptions := do
  let draft ← CommandDraft.read {} (← ArgumentForm.ofTexts arguments)
  if draft.leftOver || !draft.hasFile then .error .misuse else .ok draft.options

end BlockCompiler

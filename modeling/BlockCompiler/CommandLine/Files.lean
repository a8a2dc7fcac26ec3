import BlockCompiler.Unicode.Lower

/-!
Paths, and the files and directories that a command sees.
-/

namespace BlockCompiler

/-- A path: what it starts with if it is absolute, and the names on the way. -/
structure Route where
  root : String := ""
  names : List String := []
  deriving DecidableEq, Repr

/-- The pieces of a text between its slashes; there is always one. -/
def splitSlashes : List Char → List (List Char)
  | [] => [[]]
  | c :: rest =>
    match splitSlashes rest with
    | [] => [[c]]
    | name :: names => if c = '/' then [] :: name :: names else (c :: name) :: names

namespace Route

/-- The route that a text describes. Empty names and single dots lead nowhere, and two slashes at the
start are kept as they are. -/
def ofText (text : String) : Route :=
  let chars := text.toList
  let slashes := (chars.takeWhile (· = '/')).length
  let root := if slashes = 0 then "" else if slashes = 2 then "//" else "/"
  ⟨root, ((splitSlashes chars).map String.ofList).filter fun name => name ≠ "" ∧ name ≠ "."⟩

/-- The text of a route. -/
def text (route : Route) : String :=
  if route.root = "" ∧ route.names = [] then "." else route.root ++ "/".intercalate route.names

/-- A route continued by another. An absolute one starts anew. -/
def join (route next : Route) : Route :=
  if next.root = "" then { route with names := route.names ++ next.names } else next

end Route

/-- The name of the file that a program of some name is written to. -/
def fileName (name : String) : String :=
  let plain := (lower name).toList.map fun c => if c = '-' ∨ c = ' ' then '_' else c
  String.ofList plain ++ ".cpp"

/-- A place: names on the way down from the root, or from so many directories above the working one. -/
structure Place where
  fromRoot : Bool := false
  up : Nat := 0
  names : List String := []
  deriving DecidableEq, Repr

/-- The directory that holds a place. The root holds itself. -/
def Place.parent (place : Place) : Place :=
  if place.names = [] then (if place.fromRoot then place else { place with up := place.up + 1 })
  else { place with names := place.names.dropLast }

/-- The text of a path to a place. -/
def Place.text (place : Place) : String :=
  let names := List.replicate place.up ".." ++ place.names
  (if place.fromRoot then "/" else "") ++ "/".intercalate names

/-- Why a path cannot be used. -/
inductive PathError where
  | notFound
  | notADirectory
  | isADirectory
  | alreadyExists
  | nameTooLong
  | nullCharacter
  deriving DecidableEq, Repr

/-- What a path error says. -/
def PathError.message : PathError → String
  | .notFound => "no such file or directory"
  | .notADirectory => "not a directory"
  | .isADirectory => "is a directory"
  | .alreadyExists => "file exists"
  | .nameTooLong => "file name too long"
  | .nullCharacter => "embedded null byte"

/-- The most bytes that the text of a route may have. -/
def routeLimit : Nat := 4095

/-- Refuse a route that leads nowhere because of how it is written. -/
def Route.check (route : Route) : Except PathError Unit :=
  if route.text.toList.contains '\x00' then .error .nullCharacter
  else if routeLimit < route.text.utf8ByteSize then .error .nameTooLong
  else .ok ()

/-- Files with their contents, and the directories besides the working one and those above it. -/
structure Files where
  directories : List Place := []
  contents : List (Place × List UInt8) := []

namespace Files

/-- Whether a place is a directory. -/
def isDirectory (files : Files) (place : Place) : Bool :=
  place.names = [] || files.directories.contains place

/-- The contents of the file at a place. -/
def read? (files : Files) (place : Place) : Option (List UInt8) := files.contents.lookup place

/-- Go one name on from a place, which must be a directory. -/
def enter (files : Files) (place : Place) (name : String) : Except PathError Place :=
  if !files.isDirectory place then
    .error (if (files.read? place).isSome then .notADirectory else .notFound)
  else if name = ".." then .ok place.parent
  else if 255 < name.utf8ByteSize then .error .nameTooLong
  else .ok { place with names := place.names ++ [name] }

/-- The place where a route starts. -/
def startOf (route : Route) : Place := { fromRoot := route.root ≠ "" }

/-- The place to which a route leads. -/
def locate (files : Files) (route : Route) : Except PathError Place := do
  route.check
  route.names.foldlM files.enter (startOf route)

/-- Whether a route leads to a directory. -/
def leadsToDirectory (files : Files) (route : Route) : Bool :=
  match files.locate route with
  | .ok place => files.isDirectory place
  | .error _ => false

/-- Make the last directory on a route, where nothing is yet. -/
def makeDirectory (files : Files) (route : Route) : Except PathError Files := do
  let place ← files.locate route
  if files.isDirectory place || (files.read? place).isSome then .error .alreadyExists
  else .ok { files with directories := files.directories ++ [place] }

/-- Make the last directory on a route unless it is there. -/
def provideDirectory (files : Files) (route : Route) : Except PathError Files :=
  match files.makeDirectory route with
  | .error error => if files.leadsToDirectory route then .ok files else .error error
  | made => made

/-- Make the directories on a route, given by its names in reverse. Those on the way to the last one are
made only if it is missing for want of them. -/
def provideDirectories (files : Files) (root : String) : List String → Except PathError Files
  | [] => .ok files
  | name :: above =>
    let route : Route := ⟨root, (name :: above).reverse⟩
    match files.provideDirectory route with
    | .error .notFound => do (← files.provideDirectories root above).provideDirectory route
    | provided => provided

/-- Make all directories on a route. -/
def makeDirectories (files : Files) (route : Route) : Except PathError Files :=
  files.provideDirectories route.root route.names.reverse

/-- Write a file, in place of any that is there. -/
def write (files : Files) (route : Route) (content : List UInt8) : Except PathError Files := do
  let place ← files.locate route
  if files.isDirectory place then .error .isADirectory
  else .ok { files with contents := files.contents.filter (·.1 ≠ place) ++ [(place, content)] }

/-- One file on a route, in directories made for it. -/
def ofFile (route : Route) (content : List UInt8) : Except PathError Files := do
  (← ({} : Files).makeDirectories { route with names := route.names.dropLast }).write route content

end Files

end BlockCompiler

import BlockCompiler.Text.Lines

/-!
Wrapping: breaking the lines of a text at blanks so that each fits a width. Words are never broken, so a
line may be wider when one word is.
-/

namespace BlockCompiler

/-- Replace tabs by spaces up to the next of the columns at multiples of eight. -/
def expandTabs : (column : Nat) → List Char → List Char
  | _, [] => []
  | column, c :: rest =>
    if c = '\t' then
      let gap := 8 - column % 8
      List.replicate gap ' ' ++ expandTabs (column + gap) rest
    else if c = '\n' ∨ c = '\r' then c :: expandTabs 0 rest
    else c :: expandTabs (column + 1) rest

/-- Split a text into its words and the runs of spaces between them. -/
def splitChunks : List Char → List (List Char)
  | [] => []
  | c :: rest =>
    match splitChunks rest with
    | (d :: chunk) :: chunks =>
      if (c = ' ') = (d = ' ') then (c :: d :: chunk) :: chunks else [c] :: (d :: chunk) :: chunks
    | chunks => [c] :: chunks

/-- Take chunks as long as they fit into the room. -/
def takeFitting (room : Nat) : List (List Char) → List (List Char) × List (List Char)
  | [] => ([], [])
  | chunk :: rest =>
    if chunk.length ≤ room then
      let (line, rest) := takeFitting (room - chunk.length) rest
      (chunk :: line, rest)
    else ([], chunk :: rest)

/-- The chunks of the next line and those after it. A word that is too wide stands alone. -/
def takeLine (width : Nat) (chunks : List (List Char)) : List (List Char) × List (List Char) :=
  match takeFitting width chunks with
  | ([], wide :: rest) => ([wide], rest)
  | taken => taken

/-- The chunks without a blank one at their head. -/
def dropBlankHead : List (List Char) → List (List Char)
  | chunk :: rest => if chunk.all isBlank then rest else chunk :: rest
  | [] => []

/-- The chunks without a blank one at their end. -/
def dropBlankEnd (chunks : List (List Char)) : List (List Char) :=
  (dropBlankHead chunks.reverse).reverse

/-- The lines that chunks fill. Blank chunks are dropped at the ends of lines, and at their heads except
on the first line. Every line takes a chunk, so as much fuel as there are chunks suffices. -/
def fillLines (width : Nat) : (fuel : Nat) → (first : Bool) → List (List Char) → List (List Char)
  | 0, _, _ => []
  | fuel + 1, first, chunks =>
    match if first then chunks else dropBlankHead chunks with
    | [] => []
    | chunks =>
      let (line, rest) := takeLine width chunks
      match dropBlankEnd line with
      | [] => fillLines width fuel first rest
      | line => line.flatten :: fillLines width fuel false rest

/-- One line broken into lines of a width. -/
def wrapLine (width : Nat) (line : List Char) : List Char :=
  let chunks := splitChunks ((expandTabs 0 line).map fun c => if isPlainBlank c then ' ' else c)
  ['\n'].intercalate (fillLines width chunks.length true chunks)

/-- A text with each of its lines broken into lines of a width. -/
def wrap (width : Nat) (text : String) : String :=
  String.ofList (['\n'].intercalate ((splitLines text.toList).map (wrapLine width)))

/-- A width that holds nothing. -/
structure WidthError where
  width : Int

/-- What a width error says. -/
def WidthError.message (error : WidthError) : String := s!"invalid width {error.width} (must be > 0)"

/-- A text wrapped to a limit, which must be positive. -/
def wrapTo (limit : Int) (text : String) : Except WidthError String :=
  if limit ≤ 0 then .error ⟨limit⟩ else .ok (wrap limit.toNat text)

end BlockCompiler

import BlockCompiler.Proofs.Document.Checked
import BlockCompiler.Proofs.Emission.Expressions
import BlockCompiler.Proofs.Text.Lines

/-!
Listings: statements line by line. What is left of the code of statements without the lines that only hold it
together has one line for each statement that has no statements inside.
-/

namespace BlockCompiler

/-- A statement without statements inside: its block, and what is plugged into it. -/
structure Leaf where
  head : BlockHead
  rows : Rows BlockHead RowHead

/-- Whether the blocks of a kind are statements without statements inside. -/
def BlockKind.isLeaf : BlockKind → Bool
  | .print | .setVariable | .change | .callProcedure => true
  | _ => false

/-- The names of the openings of a block, in their order: those of the arms of a branch and then that of what
is done otherwise, and that of the body of a loop. -/
def BlockHead.openings (head : BlockHead) : List String :=
  match BlockKind.ofName? head.type with
  | some .branch =>
    match ((head.mutation.get? "elseif").getD (.int 0)).toWhole with
    | .ok count =>
      ((List.range (count.toNat + 1)).map fun arm => s!"DO{arm}") ++
        if ((head.mutation.get? "else").getD .null).isVoid then [] else ["ELSE"]
    | .error _ => []
  | some .repeatTimes | some .whileUntil => ["DO"]
  | _ => []

/-- Whether a block is a statement without statements inside. -/
def BlockHead.isLeaf (head : BlockHead) : Bool := (BlockKind.ofName? head.type).any (·.isLeaf)

mutual

/-- The statements of a stack that have no statements inside, in source order. What is in the openings of a
block comes before what follows it. Nothing inside a disabled block counts, but what follows it does. -/
def Stack.leaves : Stack BlockHead RowHead → List Leaf
  | .empty => []
  | .block head rows next =>
    (if head.disabled then [] else if head.isLeaf then [⟨head, rows⟩]
      else head.openings.flatMap rows.leavesAt) ++
      next.leaves

/-- The statements in the row of a name that have no statements inside. -/
def Rows.leavesAt : Rows BlockHead RowHead → String → List Leaf
  | .nil, _ => []
  | .cons row plugged rest, name => if row.name = name then plugged.leaves else rest.leavesAt name

end

theorem Rows.leavesAt_eq (rows : Rows BlockHead RowHead) (name : String) :
    rows.leavesAt name = (rows.at name).leaves := by
  match rows with
  | .nil =>
    rw [leavesAt, Rows.at, Stack.leaves]
  | .cons row plugged rest =>
    rw [leavesAt, Rows.at]
    split_ifs
    · rfl
    · exact leavesAt_eq rest name

/-- A code is read as an expression, up to how conjunctions and disjunctions are associated. -/
def IsReadAs (code : String) (e : Expr) : Prop := ∃ f, parse code = some f ∧ f.Alike e

/-- The identifier that a pass has for a procedure. -/
def Pass.procedure (pass : Pass) (name : String) : String :=
  (pass.names.assigned.get? (nameKey name .procedure)).getD ""

/-- A line is that of a statement, under the names of a pass. -/
def Leaf.IsLine (leaf : Leaf) (pass : Pass) (line : List Char) : Prop :=
  let operand := leaf.rows.operand? pass
  match BlockKind.ofName? leaf.head.type with
  | some .print => ∃ code, line = ("std::cout << " ++ code ++ " << std::endl;").toList ∧
      IsReadAs code ((operand "TEXT").getD (.quoted ""))
  | some .setVariable =>
    ∃ code, line = (pass.variable (leaf.head.field "VAR").word ++ " = " ++ code ++ ";").toList ∧
      IsReadAs code ((operand "VALUE").getD (.numeral "0"))
  | some .change =>
    ∃ code, line = (pass.variable (leaf.head.field "VAR").word ++ " += " ++ code ++ ";").toList ∧
      IsReadAs code ((operand "DELTA").getD (.numeral "0"))
  | some .callProcedure => ∃ codes params, parameters leaf.head.mutation = .ok params ∧
      line = (pass.procedure (leaf.head.field "NAME").word ++ "(" ++ joinTexts ", " codes ++ ");").toList ∧
      List.Forall₂ IsReadAs codes (familyOf operand "ARG" params.length (.numeral "0"))
  | _ => False

/-- Whether a line only holds others together: a comment, the end of a block, the head of a branch or of a
loop, or the count of a loop. -/
def isFrame (line : List Char) : Bool :=
  "//".toList.isPrefixOf line || "\x7d".toList.isPrefixOf line || "if (".toList.isPrefixOf line ||
    "for (".toList.isPrefixOf line || "while (".toList.isPrefixOf line ||
    "int ".toList.isPrefixOf line && (line.drop 4).head?.any isIdentifierChar

/-- Lines without their indentation, but for those that only hold others together. -/
def bareLines (lines : List (List Char)) : List (List Char) :=
  (lines.map fun line => line.dropWhile (· = ' ')).filter fun line => !isFrame line

theorem bareLines_append (lines more : List (List Char)) :
    bareLines (lines ++ more) = bareLines lines ++ bareLines more := by
  rw [bareLines, List.map_append, List.filter_append]
  rfl

/-- In a pass that may go on, a text has lines for some statements, one for each, and otherwise only lines
that hold these together. This is asked for where all types are known. -/
def Lists (known : Bool) (s : Pass) (leaves : List Leaf) (text : String) : Prop :=
  known = true → ∃ lines, text.toList = unlines lines ∧ (∀ line ∈ lines, '\n' ∉ line) ∧
    List.Forall₂ (fun leaf line => ∀ t, s.Grows t → leaf.IsLine t line) leaves (bareLines lines)

section Lists

variable {known : Bool} {s t : Pass} {leaves more : List Leaf} {text other : String}

theorem lists_empty : Lists known s [] "" := fun _ => ⟨[], rfl, by simp, .nil⟩

theorem Lists.later (lists : Lists known s leaves text) (grows : s.Grows t) : Lists known t leaves text := by
  intro isKnown
  obtain ⟨lines, shape, each, related⟩ := lists isKnown
  exact ⟨lines, shape, each, related.imp fun _ _ holds u later => holds u (grows.trans later)⟩

theorem Lists.append (lists : Lists known s leaves text) (others : Lists known s more other) :
    Lists known s (leaves ++ more) (text ++ other) := by
  intro isKnown
  obtain ⟨lines, shape, each, related⟩ := lists isKnown
  obtain ⟨linesOther, shapeOther, eachOther, relatedOther⟩ := others isKnown
  refine ⟨lines ++ linesOther, ?_, List.forall_mem_append.mpr ⟨each, eachOther⟩, ?_⟩
  · rw [String.toList_append, shape, shapeOther, unlines, unlines, unlines, List.flatMap_append]
  · rw [bareLines_append]
    exact List.rel_append related relatedOther

/-- What lists nothing may stand before other lines. -/
theorem Lists.before (lists : Lists known s [] text) (others : Lists known s more other) :
    Lists known s more (text ++ other) :=
  lists.append others

/-- A line that only holds others together lists nothing. -/
theorem lists_frame {line : String} (oneLine : OneLine line) (frame : isFrame line.toList)
    (filled : line.toList.head? ≠ some ' ') :
    Lists known s [] (line ++ "\n") := by
  intro _
  refine ⟨[line.toList], by simp [unlines], List.forall_mem_singleton.mpr oneLine, ?_⟩
  have bare : line.toList.dropWhile (· = ' ') = line.toList := by
    cases shape : line.toList with
    | nil => rfl
    | cons c rest =>
      rw [shape] at filled
      rw [List.dropWhile_cons_of_neg (by simpa using filled)]
  rw [bareLines, List.map_singleton, bare, List.filter_cons_of_neg (by simpa using frame)]
  exact .nil

/-- The line of a statement lists it. -/
theorem lists_leaf {line : String} {leaf : Leaf} (oneLine : OneLine line)
    (plain : isFrame line.toList = false) (filled : line.toList.head? ≠ some ' ')
    (isLine : ∀ t, s.Grows t → leaf.IsLine t line.toList) :
    Lists known s [leaf] (line ++ "\n") := by
  intro _
  refine ⟨[line.toList], by simp [unlines], List.forall_mem_singleton.mpr oneLine, ?_⟩
  have bare : line.toList.dropWhile (· = ' ') = line.toList := by
    cases shape : line.toList with
    | nil => rfl
    | cons c rest =>
      rw [shape] at filled
      rw [List.dropWhile_cons_of_neg (by simpa using filled)]
  rw [bareLines, List.map_singleton, bare, List.filter_cons_of_pos (by simpa using plain)]
  exact .cons isLine .nil

/-- Indentation changes no listing. -/
theorem Lists.indented (lists : Lists known s leaves text) :
    Lists known s leaves (if text = "" then "" else leadLines indent text) := by
  intro isKnown
  obtain ⟨lines, shape, each, related⟩ := lists isKnown
  refine ⟨lines.map (indent.toList ++ ·), ite_leadLines_unlines each shape, fun line member => ?_, ?_⟩
  · obtain ⟨old, among, rfl⟩ := List.mem_map.mp member
    simpa [indent] using each old among
  · have bare : bareLines (lines.map (indent.toList ++ ·)) = bareLines lines := by
      rw [bareLines, bareLines, List.map_map]
      rfl
    rw [bare]
    exact related

/-- The comments of a block list nothing. -/
theorem lists_comments (site : Site) : Lists known s [] site.comments := by
  intro _
  obtain ⟨lines, shape, each⟩ := site.exists_commentLines
  refine ⟨lines, shape, fun line member => (each line member).2, ?_⟩
  have none : bareLines lines = [] := by
    rw [bareLines, List.filter_eq_nil_iff]
    intro bare member
    obtain ⟨line, among, rfl⟩ := List.mem_map.mp member
    have comment : "//".toList.isPrefixOf (line.dropWhile (· = ' ')) := (each line among).1
    rw [isFrame, comment]
    simp only [Bool.true_or, Bool.not_true]
    decide
  rw [none]
  exact .nil

end Lists

end BlockCompiler

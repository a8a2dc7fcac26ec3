import BlockCompiler.Proofs.Emission.Looped

/-!
Rendered stacks: the lines that a stack becomes, told block by block. Each block has its comments above it. A
block of a known type has lines of code, with the lines in its openings between them; one line stands for a
block of an unknown type.
-/

namespace BlockCompiler

/-- A line of code: it starts no comment, and it ends a statement, or it opens or closes a block. -/
structure IsStatementLine (line : List Char) : Prop where
  oneLine : '\n' ∉ line
  code : isCommentLine line = false
  ends : EndsStatement line

/-- Lines of code, and between these the lines of some bodies, in order. -/
inductive Interlaced : List (List (List Char)) → List (List Char) → Prop
  | nil : Interlaced [] []
  | line {line lines bodies} (isLine : IsStatementLine line) (later : Interlaced bodies lines) :
      Interlaced bodies (line :: lines)
  | body {body lines bodies} (later : Interlaced bodies lines) : Interlaced (body :: bodies) (body ++ lines)

/-- Lines that stand further in. -/
def indented (lines : List (List Char)) : List (List Char) := lines.map (indent.toList ++ ·)

/-- The lines above the code of a block: those of its own comment, and of the comments that it lifts. -/
def linesAbove (head : BlockHead) (rows : Rows BlockHead RowHead) : List (List Char) :=
  head.ownLines ++ rows.lifted.flatMap (ledLines "// ")

/-- The line that stands for a block of an unknown type. -/
def BlockHead.standIn (head : BlockHead) : List Char :=
  if head.hasOutput then "0;".toList else ("// TODO: no template for block type '" ++ head.type ++ "'").toList

mutual

/-- The lines that a stack is rendered as. Nothing is rendered of a disabled block, but what follows it is. -/
def Stack.Renders : Stack BlockHead RowHead → List (List Char) → Prop
  | .empty, lines => lines = []
  | .block head rows next, lines => ∃ here later, lines = here ++ later ∧ next.Renders later ∧
    if head.disabled then here = []
    else ∃ own, here = linesAbove head rows ++ own ∧
      if BlockKind.ofName? head.type = none then own = [head.standIn]
      else ∃ bodies, List.Forall₂ (fun name body => ∃ inner, rows.RendersAt name inner ∧
        body = indented inner) head.bodies bodies ∧
        Interlaced bodies own

/-- The lines that the stack in the row of a name is rendered as. -/
def Rows.RendersAt : Rows BlockHead RowHead → String → List (List Char) → Prop
  | .nil, _, lines => lines = []
  | .cons row plugged rest, name, lines =>
    if row.name = name then plugged.Renders lines else rest.RendersAt name lines

end

theorem Rows.rendersAt_iff (rows : Rows BlockHead RowHead) (name : String) (lines : List (List Char)) :
    rows.RendersAt name lines ↔ (rows.at name).Renders lines := by
  cases rows with
  | nil => rw [RendersAt, Rows.at, Stack.Renders]
  | cons row plugged rest =>
    rw [RendersAt, Rows.at]
    split_ifs
    · rfl
    · exact rendersAt_iff rest name lines

mutual

/-- The comment lines that a stack is rendered with: those above each block, those that stand for blocks of
unknown types, and those in openings. -/
def Stack.noted : Stack BlockHead RowHead → List (List Char)
  | .empty => []
  | .block head rows next =>
    (if head.disabled then []
      else linesAbove head rows ++
        if BlockKind.ofName? head.type = none then remarkLines [head.standIn]
        else head.bodies.flatMap rows.notedAt) ++
      next.noted

/-- The comment lines in the row of a name. -/
def Rows.notedAt : Rows BlockHead RowHead → String → List (List Char)
  | .nil, _ => []
  | .cons row plugged rest, name => if row.name = name then plugged.noted else rest.notedAt name

end

theorem Rows.notedAt_eq (rows : Rows BlockHead RowHead) (name : String) :
    rows.notedAt name = (rows.at name).noted := by
  cases rows with
  | nil => rw [notedAt, Rows.at, Stack.noted]
  | cons row plugged rest =>
    rw [notedAt, Rows.at]
    split_ifs
    · rfl
    · exact notedAt_eq rest name

section Rendering

variable {head : BlockHead} {rows : Rows BlockHead RowHead} {next : Stack BlockHead RowHead}
  {lines own : List (List Char)}

theorem renders_nothing : Stack.Renders .empty [] := by rw [Stack.Renders]

theorem renders_disabled (disabled : head.disabled) (later : next.Renders lines) :
    (Stack.block head rows next).Renders lines := by
  rw [Stack.Renders]
  exact ⟨[], lines, rfl, later, by rw [if_pos disabled]⟩

theorem renders_unknown (enabled : head.disabled = false) (unknown : BlockKind.ofName? head.type = none)
    (later : next.Renders lines) :
    (Stack.block head rows next).Renders (linesAbove head rows ++ [head.standIn] ++ lines) := by
  rw [Stack.Renders]
  refine ⟨_, lines, rfl, later, ?_⟩
  rw [enabled, if_neg (by simp)]
  exact ⟨_, rfl, by rw [if_pos unknown]⟩

theorem renders_known (enabled : head.disabled = false) (known : BlockKind.ofName? head.type ≠ none)
    {bodies : List (List (List Char))}
    (each : List.Forall₂ (fun name body => ∃ inner, (rows.at name).Renders inner ∧ body = indented inner)
    head.bodies bodies)
    (interlaced : Interlaced bodies own) (later : next.Renders lines) :
    (Stack.block head rows next).Renders (linesAbove head rows ++ own ++ lines) := by
  rw [Stack.Renders]
  refine ⟨_, lines, rfl, later, ?_⟩
  rw [enabled, if_neg (by simp)]
  refine ⟨_, rfl, ?_⟩
  rw [if_neg known]
  simp only [Rows.rendersAt_iff]
  exact ⟨bodies, each, interlaced⟩

end Rendering

section Lines

variable {lines others : List (List Char)} {bodies : List (List (List Char))}

/-- What is above the code of a block are the lines of comments, each with slashes and a space before it. -/
theorem exists_ledLines (head : BlockHead) (rows : Rows BlockHead RowHead) : ∃ texts : List (String × String),
    linesAbove head rows = texts.flatMap (fun entry => ledLines entry.1 entry.2) ∧
      (∀ entry ∈ texts, entry.1 ∈ ["// ", "/// "]) ∧
      ∀ entry ∈ texts, (∃ comment ∈ head.comment, entry.2 = wrap (commentColumns - 3) comment) ∨
      entry.2 ∈ rows.lifted := by
  refine ⟨(head.comment.toList.map fun comment => (if isProcedureDefinition head.type then "/// " else "// ",
    wrap (commentColumns - 3) comment)) ++ rows.lifted.map fun comment => ("// ", comment), ?_, ?_, ?_⟩
  · rw [linesAbove, List.flatMap_append, List.flatMap_map, List.flatMap_map, BlockHead.ownLines]
    cases head.comment <;> simp
  · refine List.forall_mem_append.mpr ⟨fun entry member => ?_, fun entry member => ?_⟩
    · obtain ⟨comment, _, rfl⟩ := List.mem_map.mp member
      dsimp only
      split_ifs <;> simp
    · obtain ⟨comment, _, rfl⟩ := List.mem_map.mp member
      simp
  · refine List.forall_mem_append.mpr ⟨fun entry member => ?_, fun entry member => ?_⟩
    · obtain ⟨comment, among, rfl⟩ := List.mem_map.mp member
      exact .inl ⟨comment, Option.mem_toList.mp among, rfl⟩
    · obtain ⟨comment, among, rfl⟩ := List.mem_map.mp member
      exact .inr among

theorem slashed_of_mem {lead : String} (among : lead ∈ ["// ", "/// "]) : "//".toList <+: lead.toList := by
  simp only [List.mem_cons, List.not_mem_nil, or_false] at among
  rcases among with rfl | rfl
  · exact ⟨" ".toList, rfl⟩
  · exact ⟨"/ ".toList, rfl⟩

/-- The lines above the code of a block are comment lines that do not stand further in. -/
theorem remarkLines_above (head : BlockHead) (rows : Rows BlockHead RowHead) :
    remarkLines (linesAbove head rows) = linesAbove head rows := by
  obtain ⟨texts, shape, leads, -⟩ := exists_ledLines head rows
  rw [shape]
  clear shape
  induction texts with
  | nil => rfl
  | cons entry rest ih =>
    obtain ⟨here, later⟩ := List.forall_mem_cons.mp leads
    rw [List.flatMap_cons, remarkLines_append, remarkLines_ledLines (slashed_of_mem here), ih later]

theorem isCommentLine_above {head : BlockHead} {rows : Rows BlockHead RowHead} :
    ∀ line ∈ linesAbove head rows, isCommentLine line := by
  obtain ⟨texts, shape, leads, _⟩ := exists_ledLines head rows
  rw [shape]
  intro line member
  obtain ⟨entry, among, inLines⟩ := List.mem_flatMap.mp member
  obtain ⟨words, lead⟩ := slashed_of_mem (leads entry among)
  obtain ⟨old, _, rfl⟩ := List.mem_map.mp inLines
  exact isCommentLine_iff.mpr ⟨0, words ++ old, by rw [← lead]; simp⟩

/-- What holds of lines of code and of all lines of the bodies holds of all lines. -/
theorem Interlaced.forall {P : List Char → Prop} (interlaced : Interlaced bodies lines)
    (code : ∀ line, IsStatementLine line → P line) (inside : ∀ body ∈ bodies, ∀ line ∈ body, P line) :
    ∀ line ∈ lines, P line := by
  induction interlaced with
  | nil => simp
  | line isLine _ ih => exact List.forall_mem_cons.mpr ⟨code _ isLine, ih inside⟩
  | body _ ih =>
    obtain ⟨here, later⟩ := List.forall_mem_cons.mp inside
    exact List.forall_mem_append.mpr ⟨here, ih later⟩

/-- The comment lines are those of the bodies. -/
theorem Interlaced.remarkLines (interlaced : Interlaced bodies lines) :
    remarkLines lines = bodies.flatMap BlockCompiler.remarkLines := by
  induction interlaced with
  | nil => rfl
  | @line line lines bodies isLine _ ih =>
    have none : BlockCompiler.remarkLines [line] = [] := by
      rw [BlockCompiler.remarkLines, List.filter_cons_of_neg (by simp [isLine.code])]
      rfl
    rw [← ih, ← List.singleton_append, remarkLines_append, none, List.nil_append]
  | body _ ih => rw [remarkLines_append, ih, List.flatMap_cons]

theorem remarkLines_indented (lines : List (List Char)) :
    remarkLines (indented lines) = remarkLines lines := by
  rw [remarkLines, indented, List.filter_map, List.map_map]
  rfl

mutual

/-- Each line of a rendered stack is a comment line, or it ends as a statement does. -/
theorem Stack.Renders.lines_end {stack : Stack BlockHead RowHead} {lines : List (List Char)}
    (renders : stack.Renders lines) :
    ∀ line ∈ lines, isCommentLine line ∨ EndsStatement line := by
  match stack with
  | .empty =>
    rw [Stack.Renders] at renders
    simp [renders]
  | .block head rows next =>
    rw [Stack.Renders] at renders
    obtain ⟨here, later, rfl, rendersNext, own⟩ := renders
    refine List.forall_mem_append.mpr ⟨?_, rendersNext.lines_end⟩
    split_ifs at own with disabled unknown
    · simp [own]
    · obtain ⟨_, rfl, rfl⟩ := own
      refine List.forall_mem_append.mpr ⟨fun line member => .inl (isCommentLine_above line member),
        List.forall_mem_singleton.mpr ?_⟩
      unfold BlockHead.standIn
      split_ifs
      · exact .inr (by decide)
      · exact .inl (isCommentLine_iff.mpr ⟨0, _, by simp; rfl⟩)
    · obtain ⟨own, rfl, bodies, each, interlaced⟩ := own
      refine List.forall_mem_append.mpr ⟨fun line member => .inl (isCommentLine_above line member), ?_⟩
      refine interlaced.forall (fun line isLine => .inr isLine.ends) fun body among => ?_
      obtain ⟨name, _, inner, renders, rfl⟩ := exists_related each.flip among
      exact Rows.RendersAt.lines_end renders

/-- Each line of what is rendered in an opening is a comment line, or it ends as a statement does, wherever it
stands. -/
theorem Rows.RendersAt.lines_end {rows : Rows BlockHead RowHead} {name : String} {lines : List (List Char)}
    (renders : rows.RendersAt name lines) :
    ∀ line ∈ indented lines, isCommentLine line ∨ EndsStatement line := by
  match rows with
  | .nil =>
    rw [Rows.RendersAt] at renders
    simp [renders, indented]
  | .cons row plugged rest =>
    rw [Rows.RendersAt] at renders
    split_ifs at renders
    · intro line member
      obtain ⟨old, among, rfl⟩ := List.mem_map.mp member
      refine (Stack.Renders.lines_end renders old among).imp id ?_
      rintro ⟨c, ends, last⟩
      exact ⟨c, ends, by rw [List.getLast?_append, last]; rfl⟩
    · exact Rows.RendersAt.lines_end renders

end

mutual

/-- The comment lines of a rendered stack, without the spaces before them. -/
theorem Stack.Renders.remarkLines {stack : Stack BlockHead RowHead} {lines : List (List Char)}
    (renders : stack.Renders lines) :
    remarkLines lines = stack.noted := by
  match stack with
  | .empty =>
    rw [Stack.Renders] at renders
    rw [renders, Stack.noted]
    rfl
  | .block head rows next =>
    rw [Stack.Renders] at renders
    obtain ⟨here, later, rfl, rendersNext, own⟩ := renders
    rw [remarkLines_append, rendersNext.remarkLines, Stack.noted]
    congr 1
    split_ifs at own ⊢ with disabled unknown
    · rw [own]
      rfl
    · obtain ⟨_, rfl, rfl⟩ := own
      rw [remarkLines_append, remarkLines_above]
    · obtain ⟨own, rfl, bodies, each, interlaced⟩ := own
      rw [remarkLines_append, remarkLines_above, interlaced.remarkLines]
      congr 1
      clear interlaced
      generalize head.bodies = names at each
      induction each with
      | nil => rfl
      | cons first _ ih =>
        obtain ⟨inner, renders, rfl⟩ := first
        rw [List.flatMap_cons, List.flatMap_cons, ih, remarkLines_indented,
          Rows.RendersAt.remarkLines renders]

/-- The comment lines of what is rendered in an opening. -/
theorem Rows.RendersAt.remarkLines {rows : Rows BlockHead RowHead} {name : String} {lines : List (List Char)}
    (renders : rows.RendersAt name lines) : remarkLines lines = rows.notedAt name := by
  match rows with
  | .nil =>
    rw [Rows.RendersAt] at renders
    rw [renders, Rows.notedAt]
    rfl
  | .cons row plugged rest =>
    rw [Rows.RendersAt] at renders
    rw [Rows.notedAt]
    split_ifs at renders ⊢
    · exact Stack.Renders.remarkLines renders
    · exact Rows.RendersAt.remarkLines renders

end

end Lines

/-- A text is made of the lines that a stack is rendered as. -/
def Stack.RendersText (stack : Stack BlockHead RowHead) (text : String) : Prop :=
  ∃ lines, text.toList = unlines lines ∧ (∀ line ∈ lines, '\n' ∉ line) ∧ stack.Renders lines

/-- A text is made of the lines in the row of a name, further in. -/
def Rows.RendersBody (rows : Rows BlockHead RowHead) (name body : String) : Prop :=
  ∃ lines, body.toList = unlines (indented lines) ∧ (∀ line ∈ indented lines, '\n' ∉ line) ∧
    (rows.at name).Renders lines

/-- What is emitted for a stack of statements are the lines that it is rendered as. -/
def Rendered (stack : Stack BlockHead RowHead) (output : Output) : Prop :=
  ∃ code, output = .statements code ∧ stack.RendersText code

section Texts

variable {stack : Stack BlockHead RowHead} {head : BlockHead} {rows : Rows BlockHead RowHead}
  {bodies : List String} {text : String}

theorem Stack.RendersText.indented {name : String} (renders : (rows.at name).RendersText text) :
    rows.RendersBody name (if text = "" then "" else leadLines indent text) := by
  obtain ⟨lines, shape, each, renders⟩ := renders
  refine ⟨lines, ite_leadLines_unlines each shape, fun line member => ?_, renders⟩
  obtain ⟨old, among, rfl⟩ := List.mem_map.mp member
  exact List.not_mem_append (by decide) (each old among)

/-- What is between two lists is a list between them. -/
theorem exists_between {α β γ : Type} {R : α → γ → Prop} {S : β → γ → Prop} {xs : List α} {ys : List β}
    (related : List.Forall₂ (fun x y => ∃ z, R x z ∧ S y z) xs ys) :
    ∃ zs, List.Forall₂ R xs zs ∧ List.Forall₂ S ys zs := by
  induction related with
  | nil => exact ⟨[], .nil, .nil⟩
  | cons first _ ih =>
    obtain ⟨z, here, there⟩ := first
    obtain ⟨zs, below, below'⟩ := ih
    exact ⟨z :: zs, .cons here below, .cons there below'⟩

/-- What is woven of lines of code and of bodies has the lines of the bodies between them. -/
theorem Woven.interlaced (woven : Woven bodies text) {inside : List (List (List Char))}
    (each : List.Forall₂ (fun body lines => body.toList = unlines lines ∧ ∀ line ∈ lines, '\n' ∉ line)
    bodies inside) :
    ∃ lines, text.toList = unlines lines ∧ (∀ line ∈ lines, '\n' ∉ line) ∧ Interlaced inside lines := by
  induction woven generalizing inside with
  | nil =>
    cases each
    exact ⟨[], rfl, by simp, .nil⟩
  | @line line rest bodies isCode ends _ ih =>
    obtain ⟨lines, shape, oneLine, interlaced⟩ := ih each
    obtain ⟨c, headed, solid, code⟩ := isCode.starts
    refine ⟨line.toList :: lines, ?_, List.forall_mem_cons.mpr ⟨isCode.oneLine, oneLine⟩, .line ?_ interlaced⟩
    · simp [unlines, shape]
    · exact ⟨isCode.oneLine, isCommentLine_of_head headed solid code, ends⟩
  | body _ ih =>
    cases each with
    | cons first rest =>
      obtain ⟨lines, shape, oneLine, interlaced⟩ := ih rest
      refine ⟨_, ?_, List.forall_mem_append.mpr ⟨first.2, oneLine⟩, .body interlaced⟩
      rw [String.toList_append, first.1, shape, unlines_append]

theorem toList_above {emitter : Emitter} {below : Emission Output} (loose : head.inline = false) :
    (Site.comments ⟨head, emitter.sockets rows, below⟩).toList = unlines (linesAbove head rows) :=
  toList_comments loose

theorem not_mem_above (head : BlockHead) (rows : Rows BlockHead RowHead) :
    ∀ line ∈ linesAbove head rows, '\n' ∉ line := by
  obtain ⟨texts, shape, leads, -⟩ := exists_ledLines head rows
  have oneLine : ∀ lead ∈ ["// ", "/// "], OneLine lead := by decide
  rw [shape]
  intro line member
  obtain ⟨entry, among, inLines⟩ := List.mem_flatMap.mp member
  exact not_mem_ledLines (oneLine _ (leads entry among)) line inLines

end Texts

section Emitting

variable {known : Bool} {tight : Prop} {emitter : Emitter} {head : BlockHead} {rows : Rows BlockHead RowHead}
  {next : Stack BlockHead RowHead}

/-- What is given for a block of unknown type: a zero for a value, and a comment for a statement. -/
theorem emits_unknown (templates : emitter.templates = knownTemplates) (lenient : emitter.strict = false)
    {site : Site} (unknown : BlockKind.ofName? site.head.type = none) (s : Pass) :
    Emits tight (emitter.templateOf site.head.type >>= fun template => template site) s fun output _ =>
      output = if site.head.hasOutput then some (.value "0" .atomic)
        else some (.statements ("// TODO: no template for block type '" ++ site.head.type ++ "'\n")) := by
  unfold Emitter.templateOf
  rw [templates, get?_knownTemplates, unknown]
  simp only [Option.map_none, lenient, Bool.false_eq_true, if_false, bind_assoc, pure_bind]
  refine emits_placeholder.bind fun _ t _ _ => ?_
  unfold Template.placeholder
  split_ifs <;> exact emits_pure rfl

/-- A site gives a body that is made of what is in an opening. -/
theorem opensWith_rendered {below : Emission Output} {name : String}
    (each : ∀ s, Emits tight (emitter.emit (rows.at name)) s fun output _ => Rendered (rows.at name) output) :
    Site.OpensWith tight rows.RendersBody ⟨head, emitter.sockets rows, below⟩ name := by
  intro s
  rw [statements_row]
  refine (each s).bind ?_
  rintro output t _ ⟨code, rfl, renders⟩
  exact emits_pure renders.indented

theorem not_strict_of_ready (strict : emitter.strict → known)
    (ready : (Stack.block head rows next).Ready known tight) (unknown : BlockKind.ofName? head.type = none) :
    emitter.strict = false := by
  have here := ready.1
  rw [unknown] at here
  by_contra isStrict
  have all := strict (by simpa using isStrict)
  rw [here] at all
  cases all

/-- The lines of bodies of a block, with the lines of code between them. -/
theorem Weaves.exists_bodies {openings : List String} {output : Option Output}
    (weaves : Weaves rows.RendersBody openings output) :
    ∃ text lines bodies, output = some (.statements text) ∧ text.toList = unlines lines ∧
      (∀ line ∈ lines, '\n' ∉ line) ∧
      List.Forall₂ (fun name body => ∃ inner, (rows.at name).Renders inner ∧ body = indented inner)
        openings bodies ∧
        Interlaced bodies lines := by
  obtain ⟨bodies, text, rfl, woven, related⟩ := weaves
  have between :
      List.Forall₂ (fun name body => ∃ lines,
      (∃ inner, (rows.at name).Renders inner ∧ lines = indented inner) ∧
      (body.toList = unlines lines ∧ ∀ line ∈ lines, '\n' ∉ line)) openings bodies := by
    refine related.imp ?_
    rintro name body ⟨inner, shape, oneLine, renders⟩
    exact ⟨_, ⟨inner, renders, rfl⟩, shape, oneLine⟩
  obtain ⟨inside, each, shapes⟩ := exists_between between
  obtain ⟨lines, shape, oneLine, interlaced⟩ := woven.interlaced shapes
  exact ⟨text, lines, inside, rfl, shape, oneLine, each, interlaced⟩

/-- What a template gives for a statement are lines of its own that the block is rendered with, before what
follows. -/
def GivesLines (head : BlockHead) (rows : Rows BlockHead RowHead) (next : Stack BlockHead RowHead)
    (output : Option Output) : Prop :=
  ∃ text own, output = some (.statements text) ∧ text.toList = unlines own ∧ (∀ line ∈ own, '\n' ∉ line) ∧
    ∀ lines, next.Renders lines → (Stack.block head rows next).Renders (linesAbove head rows ++ own ++ lines)

/-- A statement of an unknown type is given one line that stands for it. -/
theorem emits_unknown_lines (templates : emitter.templates = knownTemplates)
    (lenient : emitter.strict = false) (enabled : head.disabled = false)
    (unknown : BlockKind.ofName? head.type = none) (output : head.hasOutput = false)
    (oneLine : OneLine head.type) {below : Emission Output} (s : Pass) :
    Emits tight (emitter.templateOf head.type >>= fun template =>
      template ⟨head, emitter.sockets rows, below⟩) s
      fun output _ => GivesLines head rows next output := by
  have standIn : head.standIn = ("// TODO: no template for block type '" ++ head.type ++ "'").toList := by
    rw [BlockHead.standIn, output, if_neg (by simp)]
  have given := @emits_unknown tight emitter templates lenient ⟨head, emitter.sockets rows, below⟩ unknown s
  refine given.imp ?_
  rintro _ t _ rfl
  rw [if_neg (by simp [output])]
  refine ⟨_, [head.standIn], rfl, ?_, List.forall_mem_singleton.mpr ?_,
    fun lines => renders_unknown enabled unknown⟩
  · simp [standIn, unlines]
  · rw [standIn]
    exact oneLine_append.mpr ⟨oneLine_append.mpr ⟨by decide, oneLine⟩, by decide⟩

/-- A statement of a known kind is given the lines that its template weaves around the bodies in its
openings. -/
theorem emits_known_lines (templates : emitter.templates = knownTemplates) (strict : emitter.strict → known)
    (enabled : head.disabled = false) (ready : (Stack.block head rows next).Ready known tight)
    (fit : rows.Fit) {kind : BlockKind}
    (named : BlockKind.ofName? head.type = some kind) (plug : kind.shape.plug = .statement)
    (each : ∀ name, (rows.at name).Ready known tight → (rows.at name).Fits → (rows.at name).IsStatement →
      ∀ s, Emits tight (emitter.emit (rows.at name)) s fun output _ => Rendered (rows.at name) output)
    {below : Emission Output} (s : Pass) :
    Emits tight (emitter.templateOf head.type >>= fun template =>
      template ⟨head, emitter.sockets rows, below⟩) s
      fun output _ => GivesLines head rows next output := by
  have readyHere := ready.1
  rw [named] at readyHere
  obtain ⟨valid, readyRows⟩ := readyHere
  have bodies : head.bodies = head.openings := by
    rw [BlockHead.bodies, named, if_neg]
    rintro ⟨⟩
    cases plug
  rw [Emitter.templateOf, templates, get?_knownTemplates, named]
  simp only [Option.map_some, pure_bind]
  refine (weaves_statement (P := rows.RendersBody) named plug valid readyRows
    (emits_operands templates strict rows)
    (fun name isOpening => ?_) s).imp ?_
  · obtain ⟨readyThere, fits, there⟩ := readyRows.opening fit (kind_of_find? isOpening)
    exact opensWith_rendered (each name readyThere fits there)
  · rintro output t _ weaves
    obtain ⟨text, own, inside, rfl, shape, oneLines, related, interlaced⟩ := weaves.exists_bodies
    rw [← bodies] at related
    exact ⟨text, own, rfl, shape, oneLines,
      fun lines => renders_known enabled (by simp [named]) related interlaced⟩

/-- What is emitted for a statement are the lines that it is rendered as, between its comments and what
follows. -/
theorem emits_rendered (templates : emitter.templates = knownTemplates) (strict : emitter.strict → known)
    (enabled : head.disabled = false) (ready : (Stack.block head rows next).Ready known tight)
    (fit : rows.Fit)
    (isStatement : head.isStatement) (loose : head.inline = false) (oneLine : OneLine head.type)
    (each : ∀ name, (rows.at name).Ready known tight → (rows.at name).Fits → (rows.at name).IsStatement →
      ∀ s, Emits tight (emitter.emit (rows.at name)) s fun output _ => Rendered (rows.at name) output)
    (below : ∀ s, Emits tight (emitter.emit next) s fun output _ => Rendered next output) (s : Pass) :
    Emits tight (emitter.emit (.block head rows next)) s fun output _ =>
      Rendered (.block head rows next) output := by
  have given :
      Emits tight (emitter.templateOf head.type >>= fun template =>
      template ⟨head, emitter.sockets rows, emitter.emit next⟩) s
      fun output _ => GivesLines head rows next output := by
    cases named : BlockKind.ofName? head.type with
    | none =>
      have output : head.hasOutput = false := by simpa [BlockHead.isStatement, named] using isStatement
      exact emits_unknown_lines templates (not_strict_of_ready strict ready named) enabled named
        output oneLine s
    | some kind =>
      have plug : kind.shape.plug = .statement := by simpa [BlockHead.isStatement, named] using isStatement
      exact emits_known_lines templates strict enabled ready fit named plug each s
  rw [Emitter.emit.eq_2, enabled, if_neg (by simp), emitSite_eq]
  refine given.bind ?_
  rintro _ t _ ⟨text, own, rfl, shape, oneLines, whole⟩
  dsimp only
  rw [Site.finish, bind_assoc]
  refine (below t).bind ?_
  rintro _ u _ ⟨later, rfl, lines, shapeLater, oneLinesLater, renders⟩
  refine emits_pure ⟨_, rfl, _, ?_, ?_, whole lines renders⟩
  · rw [String.toList_append, String.toList_append, toList_above loose, shape, unlines_append, unlines_append,
      Output.code, shapeLater]
  · exact List.forall_mem_append.mpr ⟨List.forall_mem_append.mpr ⟨not_mem_above head rows, oneLines⟩,
      oneLinesLater⟩

mutual

/-- What is emitted for a stack of statements are the lines that it is rendered as. -/
theorem emits_stack_rendered (templates : emitter.templates = knownTemplates)
    (strict : emitter.strict → known) (stack : Stack BlockHead RowHead) (ready : stack.Ready known tight)
    (fits : stack.Fits) (isStatement : stack.IsStatement)
    (oneLine : ∀ head ∈ stack.heads, OneLine head.type) (s : Pass) :
    Emits tight (emitter.emit stack) s fun output _ => Rendered stack output := by
  match stack with
  | .empty =>
    rw [Emitter.emit]
    exact emits_pure ⟨"", rfl, [], rfl, by simp, renders_nothing⟩
  | .block head rows next =>
    obtain ⟨oneLineHere, oneLineBelow⟩ := List.forall_mem_cons.mp oneLine
    obtain ⟨oneLineRows, oneLineNext⟩ := List.forall_mem_append.mp oneLineBelow
    have below := emits_stack_rendered templates strict next ready.2 fits.2.2.2.2 fits.2.2.1 oneLineNext
    cases enabled : head.disabled with
    | true =>
      rw [Emitter.emit, enabled, if_pos rfl]
      refine (below s).imp ?_
      rintro output t _ ⟨code, rfl, lines, shape, oneLines, renders⟩
      exact ⟨code, rfl, lines, shape, oneLines, renders_disabled enabled renders⟩
    | false =>
      refine emits_rendered templates strict enabled ready fits.2.1 isStatement.1 isStatement.2 oneLineHere
        (fun name readyThere fitsThere there => ?_) below s
      exact emits_openings_rendered templates strict rows name readyThere fitsThere there fun other among =>
        oneLineRows other (rows.heads_at name among)

/-- What is emitted for the statements in some rows are the lines that they are rendered as. -/
theorem emits_openings_rendered (templates : emitter.templates = knownTemplates)
    (strict : emitter.strict → known) (rows : Rows BlockHead RowHead) (name : String)
    (ready : (rows.at name).Ready known tight) (fits : (rows.at name).Fits)
    (isStatement : (rows.at name).IsStatement) (oneLine : ∀ head ∈ (rows.at name).heads, OneLine head.type)
    (s : Pass) :
    Emits tight (emitter.emit (rows.at name)) s fun output _ => Rendered (rows.at name) output := by
  match rows with
  | .nil => exact emits_stack_rendered templates strict .empty ready fits isStatement oneLine s
  | .cons row plugged rest =>
    rw [Rows.at] at ready fits isStatement oneLine ⊢
    by_cases named : row.name = name
    · rw [if_pos named] at ready fits isStatement oneLine ⊢
      exact emits_stack_rendered templates strict plugged ready fits isStatement oneLine s
    · rw [if_neg named] at ready fits isStatement oneLine ⊢
      exact emits_openings_rendered templates strict rest name ready fits isStatement oneLine s

end

/-- The code of an expression as a statement is a line of code. -/
theorem Writes.isStatementLine {code : String} {order : Order} {e : Expr} (writes : Writes code order e) :
    IsStatementLine (code ++ ";").toList := by
  refine ⟨oneLine_append.mpr ⟨writes.oneLine, by decide⟩, ?_, ends_semicolon code⟩
  have none := writes.not_comment
  obtain ⟨c, rest, shape, solid, _⟩ := writes.start
  have bare : ∀ more, (code.toList ++ more).dropWhile (· = ' ') = code.toList ++ more := fun more =>
    dropWhile_of_solid (by rw [shape]; rfl) solid
  have same := bare []
  rw [List.append_nil] at same
  rw [isCommentLine, same, shape] at none
  rw [isCommentLine, String.toList_append, bare, shape]
  cases rest with
  | nil => simp [List.isPrefixOf]
  | cons d rest => simpa [List.isPrefixOf] using none

/-- What is emitted for a value at the top is, as a statement, the lines that it is rendered as. -/
theorem emits_value_rendered (templates : emitter.templates = knownTemplates)
    (strict : emitter.strict → known) (isValue : head.isValue) (loose : head.inline = false)
    (enabled : head.disabled = false) (ready : (Stack.block head rows .empty).Ready known tight) (s : Pass) :
    Emits tight (emitter.emit (.block head rows .empty)) s fun output _ =>
      (Stack.block head rows .empty).RendersText (nakedValue output.code) := by
  cases named : BlockKind.ofName? head.type with
  | none =>
    have output : head.hasOutput := by simpa [BlockHead.isValue, named] using isValue
    rw [Emitter.emit.eq_2, enabled, if_neg (by simp), emitSite_eq]
    refine (emits_unknown templates (not_strict_of_ready strict ready named) named s).bind ?_
    rintro _ t _ rfl
    rw [if_pos output]
    dsimp only
    rw [Site.finish, Emitter.emit.eq_1, pure_bind, pure_bind]
    refine emits_pure ⟨_, ?_, ?_, renders_unknown enabled named renders_nothing⟩
    · have above := @toList_above head rows emitter (pure (.statements "")) loose
      rw [BlockHead.standIn, if_pos output, List.append_nil, unlines_append, ← above]
      simp [Output.code, nakedValue, unlines]
    · rw [List.append_nil, BlockHead.standIn, if_pos output]
      exact List.forall_mem_append.mpr ⟨not_mem_above head rows, List.forall_mem_singleton.mpr (by decide)⟩
  | some kind =>
    have bodies : head.bodies = [] := by
      have isValueKind : kind.shape.isValue := by simpa [BlockHead.isValue, named] using isValue
      cases kind <;> simp [BlockKind.shape, Shape.isValue] at isValueKind <;>
        simp [BlockHead.bodies, BlockHead.openings, named]
    refine (emits_alone templates strict isValue enabled ready (emits_operands templates strict rows) s).imp
      ?_
    rintro _ t _ ⟨code, order, rfl, e, writes, _⟩
    refine ⟨linesAbove head rows ++ [(code ++ ";").toList] ++ [], ?_, ?_, ?_⟩
    · rw [Output.code, nakedValue_append, String.toList_append, toList_above loose, List.append_nil,
        unlines_append]
      simp [unlines]
    · rw [List.append_nil]
      exact List.forall_mem_append.mpr
        ⟨not_mem_above head rows, List.forall_mem_singleton.mpr writes.isStatementLine.oneLine⟩
    · exact renders_known enabled (by simp [named]) (by rw [bodies]; exact .nil)
        (.line writes.isStatementLine .nil) renders_nothing

end Emitting

end BlockCompiler

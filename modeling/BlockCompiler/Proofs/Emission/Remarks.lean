import BlockCompiler.Proofs.Emission.Lifted
import BlockCompiler.Proofs.Emission.Woven

/-!
Remarks: the comments that the code of a stack shows. They come in source order, each once, those of values
above the statement that the values are plugged into.
-/

namespace BlockCompiler

/-- A comment above the code of a block: that of the block itself, which is wrapped, or one that is lifted
from a value. -/
inductive Remark where
  | own (comment : String)
  | lifted (comment : String)

/-- The comment of a remark. -/
def Remark.comment : Remark → String
  | .own comment => comment
  | .lifted comment => comment

/-- The lines of a remark. -/
def Remark.lines : Remark → List (List Char)
  | .own comment => ledLines "// " (wrap (commentColumns - 3) comment)
  | .lifted comment => ledLines "// " comment

/-- The remarks above the code of a block: its own comment, and then those in its sockets of values, in
order. -/
def remarksAbove (head : BlockHead) (rows : Rows BlockHead RowHead) : List Remark :=
  head.comment.toList.map .own ++ rows.lifted.map .lifted

mutual

/-- The remarks of a stack: those above a block, then those of the stacks in its openings, and then those of
what follows. -/
def Stack.remarks : Stack BlockHead RowHead → List Remark
  | .empty => []
  | .block head rows next => remarksAbove head rows ++ (rows.remarks ++ next.remarks)

/-- The remarks of the stacks in openings. -/
def Rows.remarks : Rows BlockHead RowHead → List Remark
  | .nil => []
  | .cons row plugged rest => (if row.kind = .statement then plugged.remarks else []) ++ rest.remarks

end

/-- The comment lines among some lines, without the spaces before them. -/
def remarkLines (lines : List (List Char)) : List (List Char) :=
  (lines.filter isCommentLine).map fun line => line.dropWhile (· = ' ')

theorem remarkLines_append (lines more : List (List Char)) :
    remarkLines (lines ++ more) = remarkLines lines ++ remarkLines more := by
  rw [remarkLines, List.filter_append, List.map_append]
  rfl

/-- A text is made of whole lines, and its comment lines are those of some remarks. -/
def Bears (remarks : List Remark) (text : String) : Prop :=
  ∃ lines, text.toList = unlines lines ∧ (∀ line ∈ lines, '\n' ∉ line) ∧
    remarkLines lines = remarks.flatMap (·.lines)

section Bears

variable {remarks more : List Remark} {text other : String}

theorem bears_nothing : Bears [] "" := ⟨[], rfl, by simp, rfl⟩

theorem Bears.append (bears : Bears remarks text) (others : Bears more other) :
    Bears (remarks ++ more) (text ++ other) := by
  obtain ⟨lines, shape, each, same⟩ := bears
  obtain ⟨linesOther, shapeOther, eachOther, sameOther⟩ := others
  refine ⟨lines ++ linesOther, ?_, List.forall_mem_append.mpr ⟨each, eachOther⟩, ?_⟩
  · rw [String.toList_append, shape, shapeOther, unlines_append]
  · rw [remarkLines_append, same, sameOther, List.flatMap_append]

/-- Lines bear the same remarks when they stand further in. -/
theorem Bears.indented (bears : Bears remarks text) :
    Bears remarks (if text = "" then "" else leadLines indent text) := by
  obtain ⟨lines, shape, each, same⟩ := bears
  refine ⟨lines.map (indent.toList ++ ·), ite_leadLines_unlines each shape, fun line member => ?_, ?_⟩
  · obtain ⟨old, among, rfl⟩ := List.mem_map.mp member
    exact List.not_mem_append (by decide) (each old among)
  · have bare : remarkLines (lines.map (indent.toList ++ ·)) = remarkLines lines := by
      rw [remarkLines, List.filter_map, List.map_map]
      rfl
    rw [bare, same]

theorem remarkLines_code {line : String} (isCode : IsCodeLine line) : remarkLines [line.toList] = [] := by
  obtain ⟨c, headed, solid, code⟩ := isCode.starts
  rw [remarkLines, List.filter_cons_of_neg (by rw [isCommentLine_of_head headed solid code]; simp)]
  rfl

/-- What is woven of lines of code and of bodies bears the remarks of the bodies. -/
theorem Woven.bears {bodies : List String} (woven : Woven bodies text) {inside : List (List Remark)}
    (each : List.Forall₂ Bears inside bodies) : Bears inside.flatten text := by
  induction woven generalizing inside with
  | nil =>
    cases each
    exact bears_nothing
  | @line line rest bodies isCode _ _ ih =>
    have here : Bears [] (line ++ "\n") :=
      ⟨[line.toList],
        by simp [unlines], List.forall_mem_singleton.mpr isCode.oneLine, remarkLines_code isCode⟩
    exact here.append (ih each)
  | body _ ih =>
    cases each with
    | cons first rest => exact first.append (ih rest)

/-- Lines with two slashes before them are comment lines. -/
theorem remarkLines_ledLines {lead : String} (slashed : "//".toList <+: lead.toList) (text : String) :
    remarkLines (ledLines lead text) = ledLines lead text := by
  obtain ⟨words, shape⟩ := slashed
  unfold remarkLines ledLines
  rw [← shape, List.filter_map, List.map_map]
  have all : (splitLines text.toList).filter (isCommentLine ∘ ("//".toList ++ words ++ ·)) =
      splitLines text.toList :=
    List.filter_eq_self.mpr fun line _ => rfl
  rw [all]
  rfl

theorem remarkLines_remarks (remarks : List Remark) :
    remarkLines (remarks.flatMap (·.lines)) = remarks.flatMap (·.lines) := by
  induction remarks with
  | nil => rfl
  | cons remark rest ih =>
    have here : remarkLines remark.lines = remark.lines := by
      cases remark <;> exact remarkLines_ledLines ⟨[' '], rfl⟩ _
    rw [List.flatMap_cons, remarkLines_append, here, ih]

/-- The comments of a block that is not plugged in bear its remarks. -/
theorem bears_comments {emitter : Emitter} {head : BlockHead} {rows : Rows BlockHead RowHead}
    {below : Emission Output} (loose : head.inline = false)
    (plain : isProcedureDefinition head.type = false) :
    Bears (remarksAbove head rows) (Site.comments ⟨head, emitter.sockets rows, below⟩) := by
  have lines : head.ownLines ++ rows.lifted.flatMap (ledLines "// ") =
      (remarksAbove head rows).flatMap (·.lines) := by
    rw [remarksAbove, List.flatMap_append, BlockHead.ownLines, plain]
    congr 1
    · cases head.comment <;> simp [Remark.lines]
    · rw [List.flatMap_map]
      rfl
  refine ⟨_, by rw [toList_comments loose, lines], fun line member => ?_, remarkLines_remarks _⟩
  obtain ⟨remark, _, among⟩ := List.mem_flatMap.mp member
  cases remark <;> exact not_mem_ledLines (by decide) line among

end Bears

section Openings

variable {tight : Prop} {head : BlockHead} {kind : BlockKind}

/-- The rows of a kind are sockets of values and openings. -/
theorem kind_of_mem_rows {mutation : Table Json} {spec : RowSpec} (member : spec ∈ kind.rows mutation) :
    spec.2.1 = .value ∨ spec.2.1 = .statement := by
  have family : ∀ family : RowFamily, ∀ spec ∈ (family.rows mutation).1, spec.2.1 = .value ∨
      spec.2.1 = .statement := by
    have arms : ∀ indices : List Nat, ∀ spec ∈ indices.flatMap armRows, spec.2.1 = .value ∨
        spec.2.1 = .statement := by
      intro indices spec member
      obtain ⟨arm, _, among⟩ := List.mem_flatMap.mp member
      simp only [armRows, List.mem_cons, List.not_mem_nil, or_false] at among
      rcases among with rfl | rfl <;> simp
    intro family spec member
    unfold RowFamily.rows at member
    cases family with
    | items =>
      dsimp only at member
      split at member
      · obtain ⟨_, _, rfl⟩ := List.mem_map.mp member
        exact .inl rfl
      · cases member
    | arguments =>
      dsimp only at member
      split at member
      · obtain ⟨_, _, rfl⟩ := List.mem_map.mp member
        exact .inl rfl
      · cases member
    | arms =>
      dsimp only at member
      split at member
      · dsimp only at member
        split_ifs at member
        · exact arms _ spec member
        · rcases List.mem_append.mp member with among | last
          · exact arms _ spec among
          · rw [List.mem_singleton.mp last]
            exact .inr rfl
      · exact arms [0] spec (by simpa using member)
  rcases List.mem_append.mp member with fixed | added
  · have shape : ∀ spec ∈ kind.shape.rows, spec.2.1 = .value ∨ spec.2.1 = .statement := by
      cases kind <;> simp [BlockKind.shape]
    exact shape spec fixed
  · cases same : kind.shape.family with
    | none => simp [same] at added
    | some some => exact family some spec (by simpa [same] using added)

/-- The openings of a statement are its rows that are none of values, in order. -/
theorem openings_eq (named : BlockKind.ofName? head.type = some kind)
    (isStatement : kind.shape.plug = .statement) (valid : head.Valid tight kind) :
    head.openings = ((kind.rows head.mutation).filter fun spec => decide (spec.2.1 = .statement)).map
    (·.1) := by
  cases kind with
  | branch =>
    obtain ⟨count, counted⟩ := valid.arms
    have arms : ∀ indices : List Nat,
        ((indices.flatMap armRows).filter fun spec => decide (spec.2.1 = .statement)).map (·.1) =
        indices.map fun arm => s!"DO{arm}" := by
      intro indices
      induction indices with
      | nil => rfl
      | cons arm rest ih =>
        rw [List.flatMap_cons, List.filter_append, List.map_append, ih, List.map_cons]
        rfl
    rw [openings_branch named counted, rows_branch counted, branchRows, List.filter_append,
      List.map_append, arms]
    split_ifs <;> rfl
  | callProcedure =>
    have none : (BlockKind.callProcedure.rows head.mutation).filter
        (fun spec => decide (spec.2.1 = .statement)) = [] := by
      refine List.filter_eq_nil_iff.mpr fun spec member => ?_
      simp [kind_of_mem_arguments spec member]
    rw [none, BlockHead.openings, named]
    rfl
  | print | setVariable | change | repeatTimes | whileUntil =>
    simp [BlockHead.openings, named, BlockKind.rows, BlockKind.shape]
  | _ => cases isStatement

/-- The remarks in openings are those of the stacks under the names of the openings. -/
theorem remarks_rows (rows : Rows BlockHead RowHead) {specs : List RowSpec}
    (ready : rows.Ready true tight specs) (distinct : (specs.map (·.1)).Nodup) : rows.remarks =
      ((specs.filter fun spec => decide (spec.2.1 = .statement)).map (·.1)).flatMap fun name =>
        (rows.at name).remarks := by
  match rows with
  | .nil =>
    obtain rfl : specs = [] := ready
    rw [Rows.remarks]
    rfl
  | .cons row plugged rest =>
    obtain ⟨spec, others, rfl, rfl, _, _, readyRest⟩ := ready
    rw [List.map_cons, List.nodup_cons] at distinct
    -- names differ, so that no later name finds the first row
    have later : ((others.filter fun spec => decide (spec.2.1 = .statement)).map (·.1)).flatMap
        (fun name => (rest.at name).remarks) =
        ((others.filter fun spec => decide (spec.2.1 = .statement)).map (·.1)).flatMap fun name =>
          ((Rows.cons spec.head plugged rest).at name).remarks := by
      refine List.flatMap_congr fun name member => ?_
      have differs : ¬ spec.head.name = name := by
        rintro rfl
        exact distinct.1 ((List.filter_sublist.map _).subset member)
      rw [Rows.at, if_neg differs]
    rw [Rows.remarks, remarks_rows rest readyRest distinct.2, later, List.filter_cons]
    by_cases opens : spec.2.1 = .statement
    · have here : (Rows.cons spec.head plugged rest).at spec.1 = plugged := by
        rw [Rows.at, if_pos (show spec.head.name = spec.1 from rfl)]
      rw [if_pos (show spec.head.kind = .statement from opens), if_pos (by simpa using opens), List.map_cons,
        List.flatMap_cons, here]
    · rw [if_neg (show ¬ spec.head.kind = .statement from opens), if_neg (by simpa using opens),
        List.nil_append]

end Openings

section Stacks

variable {tight : Prop} {emitter : Emitter}

/-- The heads in the row of a name are heads in the rows. -/
theorem Rows.heads_at {α : Type} (rows : Rows α RowHead) (name : String) :
    (rows.at name).heads ⊆ rows.heads := by
  match rows with
  | .nil => exact List.Subset.refl _
  | .cons row plugged rest =>
    rw [Rows.at, Rows.heads]
    split_ifs
    · exact List.subset_append_left ..
    · exact List.subset_append_of_subset_right _ (Rows.heads_at rest name)

/-- What is emitted for a stack of statements bears its remarks. -/
def Remarked (stack : Stack BlockHead RowHead) (output : Output) : Prop :=
  ∃ code, output = .statements code ∧ Bears stack.remarks code

/-- What a site gives for an opening is what is emitted for the stack there, further in. -/
theorem statements_row (head : BlockHead) (rows : Rows BlockHead RowHead) (below : Emission Output)
    (name : String) :
    Site.statements ⟨head, emitter.sockets rows, below⟩ name = (do
      let code := (← emitter.emit (rows.at name)).code
      return if code = "" then "" else leadLines indent code) := by
  have found := find?_sockets emitter rows name
  unfold Site.statements Site.socket?
  generalize (emitter.sockets rows).find? (·.name = name) = socket at found
  cases socket with
  | none =>
    dsimp only at found ⊢
    rw [found, Emitter.emit, pure_bind]
    rfl
  | some socket =>
    dsimp only
    rw [found.2]

/-- What is in an opening is a stack of statements that is ready. -/
theorem Rows.Ready.opening {known : Bool} {rows : Rows BlockHead RowHead} {specs : List RowSpec}
    {name : String} (ready : rows.Ready known tight specs) (fit : rows.Fit)
    (isStatement : ∀ spec, specs.find? (·.1 = name) = some spec → spec.2.1 = .statement) :
    (rows.at name).Ready known tight ∧ (rows.at name).Fits ∧ (rows.at name).IsStatement := by
  have readyAt := Rows.Ready.at rows ready name
  obtain ⟨fits, statement⟩ := fit.at rows ready name
  cases search : specs.find? (·.1 = name) with
  | none =>
    rw [search] at readyAt
    rw [show rows.at name = .empty from readyAt]
    exact ⟨trivial, trivial, trivial⟩
  | some spec =>
    rw [search] at readyAt
    exact ⟨readyAt.2.1, fits, statement spec search (isStatement spec search)⟩

/-- A site gives a body that bears the remarks of what is in an opening. -/
theorem opensWith_row {head : BlockHead} {rows : Rows BlockHead RowHead} {below : Emission Output}
    {name : String}
    (each : ∀ s, Emits tight (emitter.emit (rows.at name)) s fun output _ => Remarked (rows.at name) output) :
    Site.OpensWith tight (fun name body => Bears (rows.at name).remarks body)
    ⟨head, emitter.sockets rows, below⟩ name := by
  intro s
  rw [statements_row]
  refine (each s).bind ?_
  rintro output t _ ⟨code, rfl, bears⟩
  exact emits_pure bears.indented

/-- The template for a statement weaves the bodies in the openings of its block. -/
theorem weaves_statement {known : Bool} {head : BlockHead} {rows : Rows BlockHead RowHead}
    {below : Emission Output} {kind : BlockKind}
    {P : String → String → Prop} (named : BlockKind.ofName? head.type = some kind)
    (isStatement : kind.shape.plug = .statement)
    (valid : head.Valid tight kind) (ready : rows.Ready known tight (kind.rows head.mutation))
    (eachOperand : ∀ name, (rows.at name).Ready known tight → (rows.at name).IsOperand →
      ∀ s, Emits tight (emitter.emit (rows.at name)) s (Says tight (rows.at name)))
    (opens : ∀ name, (∀ spec ∈ kind.rows head.mutation, spec.1 = name → spec.2.1 = .statement) →
      Site.OpensWith tight P ⟨head, emitter.sockets rows, below⟩ name) (s : Pass) :
    Emits tight (kind.template ⟨head, emitter.sockets rows, below⟩) s fun output _ =>
      Weaves P head.openings output := by
  have offers : ∀ name, (∀ spec ∈ kind.rows head.mutation, spec.1 = name → spec.2.1 = .value) →
      Site.OffersAt tight (rows.Meets (kind.rows head.mutation)) (kind.AsksNumber name)
        ⟨head, emitter.sockets rows, below⟩
        name (fun pass => rows.operand? pass name) := by
    intro name isValue
    exact offersAt_row (kind_of_find? isValue) ready eachOperand
  cases kind with
  | print =>
    rw [show head.openings = [] by simp [BlockHead.openings, named]]
    exact weaves_print (offers "TEXT" (by simp [BlockKind.rows, BlockKind.shape]))
  | setVariable =>
    rw [show head.openings = [] by simp [BlockHead.openings, named]]
    exact weaves_setVariable valid (offers "VALUE" (by simp [BlockKind.rows, BlockKind.shape]))
  | change =>
    rw [show head.openings = [] by simp [BlockHead.openings, named]]
    exact weaves_change valid (offers "DELTA" (by simp [BlockKind.rows, BlockKind.shape]))
  | callProcedure =>
    rw [show head.openings = [] by simp [BlockHead.openings, named]]
    exact weaves_callProcedure valid fun i =>
      ⟨_, offers _ fun spec member _ => kind_of_mem_arguments spec member⟩
  | repeatTimes =>
    rw [show head.openings = ["DO"] by simp [BlockHead.openings, named]]
    exact weaves_repeatTimes (offers "TIMES" (by simp [BlockKind.rows, BlockKind.shape]))
      (opens "DO" (by simp [BlockKind.rows, BlockKind.shape]))
  | whileUntil =>
    rw [show head.openings = ["DO"] by simp [BlockHead.openings, named]]
    exact weaves_whileUntil (offers "BOOL" (by simp [BlockKind.rows, BlockKind.shape]))
      (opens "DO" (by simp [BlockKind.rows, BlockKind.shape]))
  | branch =>
    obtain ⟨count, counted⟩ := valid.arms
    have branches := @branches_of_count known tight emitter head rows below count named ready counted
    rw [branches.openings]
    exact weaves_branch branches.arms (fun arm => ⟨_, offers _ (branches.conditions arm)⟩)
      (fun arm => opens _ (branches.bodies arm))
      (opens "ELSE" branches.last)
  | _ => cases isStatement

theorem isProcedureDefinition_of_kind {type : String} {kind : BlockKind}
    (named : BlockKind.ofName? type = some kind) (other : kind ≠ .defineProcedure) :
    isProcedureDefinition type = false := by
  rw [← BlockKind.name_of_ofName? named]
  revert other
  cases kind <;> decide

/-- What is emitted for a statement bears its remarks: those above it, those in its openings, and those of
what follows. -/
theorem emits_remarked (templates : emitter.templates = knownTemplates) {head : BlockHead}
    {rows : Rows BlockHead RowHead}
    {next : Stack BlockHead RowHead} (enabled : head.disabled = false)
    (ready : (Stack.block head rows next).Ready true tight)
    (fit : rows.Fit) (isStatement : head.isStatement) (loose : head.inline = false)
    (each : ∀ name, (rows.at name).Ready true tight → (rows.at name).Fits → (rows.at name).IsStatement →
      ∀ s, Emits tight (emitter.emit (rows.at name)) s fun output _ => Remarked (rows.at name) output)
    (below : ∀ s, Emits tight (emitter.emit next) s fun output _ => Remarked next output) (s : Pass) :
    Emits tight (emitter.emit (.block head rows next)) s fun output _ =>
      Remarked (.block head rows next) output := by
  have here := ready.1
  cases named : BlockKind.ofName? head.type with
  | none =>
    rw [named] at here
    cases here
  | some kind =>
    rw [named] at here
    obtain ⟨valid, readyRows⟩ := here
    have plug : kind.shape.plug = .statement := by simpa [BlockHead.isStatement, named] using isStatement
    have plain : isProcedureDefinition head.type = false := by
      refine isProcedureDefinition_of_kind named ?_
      rintro rfl
      cases plug
    rw [Emitter.emit.eq_2, enabled, if_neg (by simp), emitSite_eq, Emitter.templateOf, templates,
      get?_knownTemplates, named]
    simp only [Option.map_some, pure_bind]
    refine (weaves_statement (P := fun name body => Bears (rows.at name).remarks body) named plug
      valid readyRows
      (emits_operands templates (fun _ => rfl) rows) (fun name isOpening => ?_) s).bind ?_
    · obtain ⟨readyThere, fits, there⟩ := readyRows.opening fit (kind_of_find? isOpening)
      exact opensWith_row (each name readyThere fits there)
    rintro output t _ ⟨bodies, text, rfl, woven, related⟩
    -- the bodies come in the order of the openings, and that is the order of the rows
    have inside := remarks_rows rows readyRows (nodup_kind_rows kind head.mutation)
    rw [← openings_eq named plug valid] at inside
    have bears : Bears rows.remarks text := by
      rw [inside, List.flatMap_def]
      exact woven.bears (List.forall₂_map_left_iff.mpr related)
    dsimp only
    rw [Site.finish, bind_assoc]
    refine (below t).bind ?_
    rintro output u _ ⟨later, rfl, others⟩
    refine emits_pure ⟨_, rfl, ?_⟩
    rw [Stack.remarks, ← List.append_assoc]
    exact ((bears_comments loose plain).append bears).append others

mutual

/-- What is emitted for a stack of statements bears its remarks. -/
theorem emits_stack_remarked (templates : emitter.templates = knownTemplates)
    (stack : Stack BlockHead RowHead) (ready : stack.Ready true tight) (fits : stack.Fits)
    (isStatement : stack.IsStatement) (enabled : ∀ head ∈ stack.heads, head.disabled = false) (s : Pass) :
    Emits tight (emitter.emit stack) s fun output _ => Remarked stack output := by
  match stack with
  | .empty =>
    rw [Emitter.emit]
    exact emits_pure ⟨"", rfl, by rw [Stack.remarks]; exact bears_nothing⟩
  | .block head rows next =>
    obtain ⟨enabledHere, enabledBelow⟩ := List.forall_mem_cons.mp enabled
    obtain ⟨enabledRows, enabledNext⟩ := List.forall_mem_append.mp enabledBelow
    refine emits_remarked templates enabledHere ready fits.2.1 isStatement.1 isStatement.2
      (fun name readyThere fitsThere there => ?_)
      (emits_stack_remarked templates next ready.2 fits.2.2.2.2 fits.2.2.1 enabledNext) s
    exact emits_openings_remarked templates rows name readyThere fitsThere there fun other among =>
      enabledRows other (rows.heads_at name among)

/-- What is emitted for the statements in some rows bears their remarks. -/
theorem emits_openings_remarked (templates : emitter.templates = knownTemplates)
    (rows : Rows BlockHead RowHead) (name : String) (ready : (rows.at name).Ready true tight)
    (fits : (rows.at name).Fits) (isStatement : (rows.at name).IsStatement)
    (enabled : ∀ head ∈ (rows.at name).heads, head.disabled = false) (s : Pass) :
    Emits tight (emitter.emit (rows.at name)) s fun output _ => Remarked (rows.at name) output := by
  match rows with
  | .nil => exact emits_stack_remarked templates .empty ready fits isStatement enabled s
  | .cons row plugged rest =>
    rw [Rows.at] at ready fits isStatement enabled ⊢
    by_cases named : row.name = name
    · rw [if_pos named] at ready fits isStatement enabled ⊢
      exact emits_stack_remarked templates plugged ready fits isStatement enabled s
    · rw [if_neg named] at ready fits isStatement enabled ⊢
      exact emits_openings_remarked templates rest name ready fits isStatement enabled s

end

end Stacks

section Comments

variable {tight : Prop}

mutual

/-- Each comment in a stack is that of one remark. -/
theorem Stack.comments_remarks {stack : Stack BlockHead RowHead} (ready : stack.Ready true tight) :
    (stack.remarks.map (·.comment)).Perm stack.comments := by
  match stack with
  | .empty =>
    rw [Stack.remarks]
    exact .refl _
  | .block head rows next =>
    have here := ready.1
    cases named : BlockKind.ofName? head.type with
    | none =>
      rw [named] at here
      cases here
    | some kind =>
      rw [named] at here
      have inside := Rows.comments_remarks here.2 fun spec member => kind_of_mem_rows member
      have later := Stack.comments_remarks ready.2
      have above : (remarksAbove head rows).map (·.comment) = head.comment.toList ++ rows.lifted := by
        rw [remarksAbove, List.map_append, List.map_map, List.map_map]
        show head.comment.toList.map id ++ rows.lifted.map id = _
        rw [List.map_id, List.map_id]
      rw [Stack.remarks, Stack.comments_block, List.map_append, List.map_append, above,
        List.append_assoc, ← List.append_assoc rows.lifted]
      exact (inside.append later).append_left _

/-- Each comment in some rows is lifted, or that of one remark in an opening. -/
theorem Rows.comments_remarks {rows : Rows BlockHead RowHead} {specs : List RowSpec}
    (ready : rows.Ready true tight specs)
    (kinds : ∀ spec ∈ specs, spec.2.1 = .value ∨ spec.2.1 = .statement) :
    (rows.lifted ++ rows.remarks.map (·.comment)).Perm rows.comments := by
  match rows with
  | .nil =>
    rw [Rows.remarks, Rows.lifted]
    exact .refl _
  | .cons row plugged rest =>
    obtain ⟨spec, others, rfl, rfl, _, readyHere, readyRest⟩ := ready
    obtain ⟨kind, kindsRest⟩ := List.forall_mem_cons.mp kinds
    have later := Rows.comments_remarks readyRest kindsRest
    rw [Rows.remarks, Rows.lifted, Rows.comments_cons]
    rcases kind with isValue | opens
    · rw [if_pos (show spec.head.kind = .value from isValue),
        if_neg (show ¬ spec.head.kind = .statement from fun same => by cases isValue.symm.trans same),
        List.nil_append, List.append_assoc]
      exact later.append_left _
    · have here := Stack.comments_remarks readyHere
      rw [if_neg (show ¬ spec.head.kind = .value from fun same => by cases opens.symm.trans same),
        if_pos (show spec.head.kind = .statement from opens), List.nil_append, List.map_append]
      refine List.perm_iff_count.mpr fun comment => ?_
      have count := here.count_eq comment
      have counts := later.count_eq comment
      simp only [List.count_append] at count counts ⊢
      omega

end

/-- There are no remarks in openings where all rows are sockets of values. -/
theorem Rows.remarks_of_values {rows : Rows BlockHead RowHead} {specs : List RowSpec}
    (ready : rows.Ready true tight specs) (values : ∀ spec ∈ specs, spec.2.1 = .value) :
    rows.remarks = [] := by
  match rows with
  | .nil => rw [Rows.remarks]
  | .cons row plugged rest =>
    obtain ⟨spec, others, rfl, rfl, _, _, readyRest⟩ := ready
    obtain ⟨isValue, valuesRest⟩ := List.forall_mem_cons.mp values
    rw [Rows.remarks,
      if_neg (show ¬ spec.head.kind = .statement from fun same => by cases isValue.symm.trans same),
      Rows.remarks_of_values readyRest valuesRest, List.nil_append]

/-- The code of an expression is no comment. -/
theorem Writes.not_comment {code : String} {order : Order} {e : Expr} (writes : Writes code order e) :
    isCommentLine code.toList = false := by
  obtain ⟨c, rest, shape, solid, _⟩ := writes.start
  have bare : code.toList.dropWhile (· = ' ') = code.toList := dropWhile_of_solid (by rw [shape]; rfl) solid
  by_contra comment
  obtain ⟨words, slashes⟩ := List.isPrefixOf_iff_prefix.mp (Bool.not_eq_false _ ▸ comment)
  rw [bare] at slashes
  obtain ⟨f, level, tokens, spells, written, _⟩ := writes.written
  have oneLine : '\n' ∉ words :=
    fun member => writes.oneLine (by rw [← slashes]; exact List.mem_append_right _ member)
  -- as a comment, the code has no tokens; as an expression, it has some
  have commented := leads_comment oneLine []
  have feed : lex ['\n'] = some [] := by
    rw [lex_of_lexeme (show readLexeme? ['\n'] = some (none, []) from rfl) (by simp), lex_nil]
    rfl
  have spelled := spells ['\n'] (apart_of_head (by decide) (by decide))
  have whole : code.toList ++ ['\n'] = '/' :: '/' :: (words ++ ['\n']) ++ [] := by
    rw [← slashes]
    simp
  rw [whole, commented, lex_nil, feed] at spelled
  obtain rfl : tokens = [] := by simpa using spelled.symm
  obtain ⟨_, _, none, _⟩ := written.begins
  cases none

/-- What is emitted for a value at the top has only the comment lines of its remarks. -/
theorem emits_value_remarked {emitter : Emitter} (templates : emitter.templates = knownTemplates)
    {head : BlockHead} {rows : Rows BlockHead RowHead} (isValue : head.isValue)
    (loose : head.inline = false) (enabled : head.disabled = false)
    (ready : (Stack.block head rows .empty).Ready true tight) (s : Pass) :
    Emits tight (emitter.emit (.block head rows .empty)) s fun output _ =>
      remarkLines (splitLines output.code.toList) =
      (Stack.block head rows .empty).remarks.flatMap (·.lines) := by
  refine (emits_alone templates (fun _ => rfl) isValue enabled ready
    (emits_operands templates (fun _ => rfl) rows) s).imp ?_
  rintro output t _ ⟨code, order, rfl, e, writes, _⟩
  have here := ready.1
  cases named : BlockKind.ofName? head.type with
  | none =>
    rw [named] at here
    cases here
  | some kind =>
    rw [named] at here
    have form : kind.shape.isValue := by simpa [BlockHead.isValue, named] using isValue
    have remarks : (Stack.block head rows .empty).remarks = remarksAbove head rows := by
      rw [Stack.remarks, Rows.remarks_of_values here.2 (rows_of_value form _), Stack.remarks, List.append_nil,
        List.append_nil]
    obtain ⟨lines, shape, each, same⟩ := @bears_comments emitter head rows (emitter.emit .empty) loose
      (isProcedureDefinition_of_value named form)
    have closed : (Site.comments ⟨head, emitter.sockets rows, emitter.emit .empty⟩ ++ code).toList ++ ['\n'] =
        unlines (lines ++ [code.toList]) := by
      rw [String.toList_append, shape, unlines_append, List.append_assoc]
      simp [unlines]
    have single : remarkLines [code.toList] = [] := by
      rw [remarkLines, List.filter_cons_of_neg (by rw [writes.not_comment]; simp)]
      rfl
    show remarkLines
      (splitLines (Site.comments ⟨head, emitter.sockets rows, emitter.emit .empty⟩ ++ code).toList) = _
    rw [splitLines_of_closed (List.forall_mem_append.mpr ⟨each, List.forall_mem_singleton.mpr writes.oneLine⟩)
      closed,
      remarkLines_append, same, single, List.append_nil, remarks]

end Comments

/-- The comment lines in the code of a stack at the top of a loaded workspace of known types without disabled
blocks, indentation apart, are those of the remarks of the stack, in order, and each comment in the stack is
that of one remark. -/
theorem Emitter.emitBlock_remarks {emitter : Emitter} (templates : emitter.templates = knownTemplates)
    {strict : Bool} {oneBased : Option Bool} {data : Json} {ws : Workspace}
    (loaded : loadWorkspace strict oneBased data = .ok ws) (proper : data.All Json.IsProper)
    (isKnown : ws.IsKnown) (enabled : ws.IsEnabled) {tight : Prop} (short : tight → data.All Json.IsShort)
    {b : Nat} (top : b ∈ ws.topBlocks) (plain : isProcedureDefinition (ws.head b).type = false)
    {before : Pass} (sound : before.Sound) :
    ∃ stack, ws.stack? (some b) = some stack ∧ ws.Hangs (some b) stack ∧
      (stack.remarks.map (·.comment)).Perm stack.comments ∧
      Runs (fun error => ¬ tight ∧ error = .numeral .tooLongToWrite) (emitter.emitBlock ws (some b)) before
        fun output after => after.Sound ∧
        remarkLines (splitLines output.code.toList) = stack.remarks.flatMap (·.lines) := by
  obtain ⟨document, described, _, loads⟩ := loads_of_loadWorkspace loaded
  obtain ⟨rows, next, found, loose, ready, fits⟩ :=
    loads.ready described proper short (fun _ : true = true => isKnown) top
  have enabledAll := enabled.stack? found
  refine ⟨_, found, Workspace.hangs_of_stack? found, Stack.comments_remarks ready, ?_⟩
  have emits : Emits tight (emitter.emit (.block (ws.head b) rows next)) before fun output _ =>
      remarkLines (splitLines output.code.toList) =
        (Stack.block (ws.head b) rows next).remarks.flatMap (·.lines) := by
    rcases (ws.head b).form with isValue | isStatement | named
    · have follows : next = .empty := by
        refine fits.2.2.2.1.resolve_left fun isStatement => ?_
        rw [BlockHead.isValue_of_isStatement isStatement] at isValue
        cases isValue
      subst follows
      exact emits_value_remarked templates isValue loose (enabledAll _ (List.mem_cons_self ..)) ready before
    · refine (emits_stack_remarked templates _ ready fits ⟨isStatement, loose⟩ enabledAll before).imp ?_
      rintro output t _ ⟨code, rfl, lines, shape, each, same⟩
      have none : remarkLines [[]] = [] := rfl
      show remarkLines (splitLines code.toList) = _
      rw [shape, splitLines_unlines each, remarkLines_append, same, none, List.append_nil]
    · rw [← BlockKind.name_of_ofName? named] at plain
      exact absurd plain (by decide)
  rw [Emitter.emitBlock, found]
  refine (emits sound).imp ?_
  rintro output after ⟨soundAfter, _, same⟩
  exact ⟨soundAfter, same⟩

/-- A loop with comments above and below it, in its count, and in a statement inside. -/
theorem Emitter.emitBlock_remarks_loop :
    let number := Json.object [("type", .text "math_number"), ("comment", .text "so often\n  and no more"),
    ("fields", .object [("NUM", .int 2)])]
    let value := Json.object [("type", .text "text"), ("comment", .text "what is said")]
    let printed :=
      Json.object [("type", .text "text_print"), ("comment", .text "inside"),
        ("inputs", .object [("TEXT", value)])]
    let last := Json.object [("type", .text "text_print"), ("comment", .text "afterwards")]
    let loop := Json.object [("type", .text "controls_repeat_ext"), ("comment", .text "above"),
      ("inputs", .object [("DO", printed), ("TIMES", number)]), ("next", last)]
    let data := Json.object [("name", .text "remarks"), ("blocks", .list [loop])]
    let emitter : Emitter := {}
    ∃ ws, loadWorkspace true none data = .ok ws ∧ ∃ stack, ws.stack? (some 0) = some stack ∧
      ws.Hangs (some 0) stack ∧ (stack.remarks.map (·.comment)).Perm stack.comments ∧
      Runs (fun error => ¬ False ∧ error = .numeral .tooLongToWrite) (emitter.emitBlock ws (some 0))
        (emitter.start ws)
        fun output after => after.Sound ∧
          remarkLines (splitLines output.code.toList) = stack.remarks.flatMap (·.lines) := by
  intro number value printed last loop data emitter
  have holds : (loadWorkspace true none data).toOption.any fun ws =>
      (List.range ws.blocks.size).all (fun b => isKnownType (ws.block b).type && !(ws.block b).disabled) &&
        ws.topBlocks.contains 0 && !isProcedureDefinition (ws.head 0).type := by decide +kernel
  obtain ⟨ws, loaded, passes⟩ := exists_ok_of_any holds
  simp only [Bool.and_eq_true, List.all_eq_true, List.mem_range, List.contains_iff_mem,
    Bool.not_eq_true'] at passes
  obtain ⟨⟨blocks, top⟩, plain⟩ := passes
  have proper : data.All Json.IsProper := by
    simp [data, loop, last, printed, value, number, Json.All, Json.AllMembers, Json.AllItems,
      Json.IsProper, Table.keys]
  exact ⟨ws, loaded, emitter.emitBlock_remarks rfl loaded proper (fun b inside => (blocks b inside).1)
    (fun b inside => (blocks b inside).2) False.elim top plain (emitter.sound_start ws)⟩

end BlockCompiler

import BlockCompiler.Proofs.Emission.Loaded
import BlockCompiler.Proofs.Source.Bracketed

/-!
Comments that are lifted: what stands above the code of a block is its own comment and those of all blocks
below its sockets of values. Not all of these are values that give code.
-/

namespace BlockCompiler

/-- The lines of a text, with a lead before each. -/
def ledLines (lead text : String) : List (List Char) := (splitLines text.toList).map (lead.toList ++ ·)

/-- The lines of the comment of a block itself. -/
def BlockHead.ownLines (head : BlockHead) : List (List Char) :=
  head.comment.elim [] fun comment =>
    ledLines (if isProcedureDefinition head.type then "/// " else "// ") (wrap (commentColumns - 3) comment)

/-- The comments that a block lifts: those of all blocks in its sockets of values and below these. -/
def Rows.lifted : Rows BlockHead RowHead → List String
  | .nil => []
  | .cons row plugged rest => (if row.kind = .value then plugged.comments else []) ++ rest.lifted

mutual

/-- The comments of a value and of the values in it, none of them in a disabled one. -/
def Stack.live : Stack BlockHead RowHead → List String
  | .empty => []
  | .block head rows _ => if head.disabled then [] else head.comment.toList ++ rows.live

/-- The comments of the values in the sockets of a block, none of them in a disabled one. -/
def Rows.live : Rows BlockHead RowHead → List String
  | .nil => []
  | .cons row plugged rest => (if row.kind = .value then plugged.live else []) ++ rest.live

end

/-- The comments in some rows, whatever the rows hold. -/
def Rows.comments (rows : Rows BlockHead RowHead) : List String := rows.heads.filterMap (·.comment)

mutual

/-- The comments of what is plugged into a socket that are of no live value: those of a disabled value and of
all below it, those in openings, and those of blocks that follow. -/
def Stack.stray : Stack BlockHead RowHead → List String
  | .empty => []
  | .block head rows next =>
    (if head.disabled then head.comment.toList ++ rows.comments else rows.strayBelow) ++ next.comments

/-- The comments below the rows of a value that are of no live value. -/
def Rows.strayBelow : Rows BlockHead RowHead → List String
  | .nil => []
  | .cons row plugged rest =>
    (if row.kind = .value then plugged.stray else plugged.comments) ++ rest.strayBelow

end

/-- The comments that a block lifts and that are of no live value in its sockets. -/
def Rows.stray : Rows BlockHead RowHead → List String
  | .nil => []
  | .cons row plugged rest => (if row.kind = .value then plugged.stray else []) ++ rest.stray

section Lines

variable {lead text : String}

theorem not_mem_ledLines (oneLine : OneLine lead) : ∀ line ∈ ledLines lead text, '\n' ∉ line := by
  intro line member
  obtain ⟨old, among, rfl⟩ := List.mem_map.mp member
  exact List.not_mem_append oneLine ((exists_splitLines _).2.1 old among)

theorem toList_leadLines (lead text : String) :
    (leadLines lead (text ++ "\n")).toList = unlines (ledLines lead text) := by
  obtain ⟨filled, each, shape⟩ := exists_splitLines text.toList
  exact leadLines_unlines filled each (by simpa using shape)

/-- Comments one below the other are the lines of all of them. -/
theorem toList_nestedComments (comments : List String) :
    (nestedComments comments).toList =
    unlines (comments.flatMap fun comment => splitLines comment.toList) := by
  match comments with
  | [] => rfl
  | [comment] =>
    have shape : nestedComments [comment] = comment ++ "\n" := by simp [nestedComments, joinTexts]
    have whole := (exists_splitLines comment.toList).2.2
    rw [shape, List.flatMap_singleton, ← whole]
    simp
  | comment :: next :: rest =>
    have shape : nestedComments (comment :: next :: rest) =
        comment ++ "\n" ++ nestedComments (next :: rest) := by
      simp [nestedComments, joinTexts, String.intercalate_cons_cons]
    have whole := (exists_splitLines comment.toList).2.2
    rw [shape, List.flatMap_cons, unlines_append, ← whole, ← toList_nestedComments (next :: rest)]
    simp

theorem toList_liftedComments (socket : Socket) : (Site.liftedComments socket).toList =
    unlines ((if socket.kind = .value then socket.comments else []).flatMap (ledLines "// ")) := by
  unfold Site.liftedComments
  split_ifs
  · cases comments : socket.comments with
    | nil => rfl
    | cons comment rest =>
      have shape := toList_nestedComments (comment :: rest)
      have filled : (comment :: rest).flatMap (fun comment => splitLines comment.toList) ≠ [] := by
        simp [(exists_splitLines comment.toList).1]
      have each : ∀ line ∈ (comment :: rest).flatMap fun comment => splitLines comment.toList,
          '\n' ∉ line := by
        intro line member
        obtain ⟨text, _, among⟩ := List.mem_flatMap.mp member
        exact (exists_splitLines text.toList).2.1 line among
      have led := @leadLines_unlines _ "// " _ filled each shape
      split
      · rename_i vacant
        rw [vacant] at shape
        cases text : (comment :: rest).flatMap fun comment => splitLines comment.toList with
        | nil => exact absurd text filled
        | cons line lines =>
          rw [text] at shape
          simp [unlines] at shape
      · rw [led, List.map_flatMap]
        rfl
  · rfl

theorem toList_ownComment (site : Site) : site.ownComment.toList = unlines site.head.ownLines := by
  unfold Site.ownComment BlockHead.ownLines
  cases site.head.comment with
  | none => rfl
  | some comment =>
    dsimp only [Option.elim_some]
    rw [toList_leadLines]

/-- What stands above the code of a block that is not plugged in: the lines of its comment, and those of the
comments that it lifts. -/
theorem toList_comments {emitter : Emitter} {head : BlockHead} {rows : Rows BlockHead RowHead}
    {below : Emission Output} (loose : head.inline = false) :
    (Site.comments ⟨head, emitter.sockets rows, below⟩).toList =
      unlines (head.ownLines ++ rows.lifted.flatMap (ledLines "// ")) := by
  have lifted : ∀ rows : Rows BlockHead RowHead,
      (String.join ((emitter.sockets rows).map Site.liftedComments)).toList =
      unlines (rows.lifted.flatMap (ledLines "// ")) := by
    intro rows
    induction rows using Rows.rec (motive_1 := fun _ => True) with
    | empty => trivial
    | block => trivial
    | nil => rw [Emitter.sockets]; rfl
    | cons row plugged rest _ ih =>
      rw [Emitter.sockets, List.map_cons, String.join_cons, String.toList_append, toList_liftedComments,
        ih, Rows.lifted,
        List.flatMap_append, unlines_append]
  unfold Site.comments
  rw [loose, if_neg (by simp), String.toList_append, toList_ownComment, lifted, unlines_append]

end Lines

section Live

/-- The comments of a block and of all below and behind it. -/
theorem Stack.comments_block (head : BlockHead) (rows : Rows BlockHead RowHead)
    (next : Stack BlockHead RowHead) :
    (Stack.block head rows next).comments = head.comment.toList ++ (rows.comments ++ next.comments) := by
  rw [Stack.comments, Stack.heads, List.filterMap_cons, List.filterMap_append]
  cases head.comment <;> rfl

theorem Rows.comments_cons (row : RowHead) (plugged : Stack BlockHead RowHead)
    (rest : Rows BlockHead RowHead) :
    (Rows.cons row plugged rest).comments = plugged.comments ++ rest.comments := by
  rw [Rows.comments, Rows.heads, List.filterMap_append]
  rfl

mutual

/-- The comments of live values come in the order of all comments. -/
theorem Stack.live_sublist (stack : Stack BlockHead RowHead) : stack.live.Sublist stack.comments := by
  match stack with
  | .empty =>
    rw [Stack.live]
    exact List.nil_sublist _
  | .block head rows next =>
    rw [Stack.live, Stack.comments_block]
    split_ifs
    · exact List.nil_sublist _
    · exact ((Rows.live_sublist rows).trans (List.sublist_append_left ..)).append_left _

/-- The comments of live values come in the order of all comments. -/
theorem Rows.live_sublist (rows : Rows BlockHead RowHead) : rows.live.Sublist rows.comments := by
  match rows with
  | .nil =>
    rw [Rows.live]
    exact List.nil_sublist _
  | .cons row plugged rest =>
    rw [Rows.live, Rows.comments_cons]
    refine List.Sublist.append ?_ (Rows.live_sublist rest)
    split_ifs
    · exact Stack.live_sublist plugged
    · exact List.nil_sublist _

end

mutual

/-- A comment in a socket is of a live value or is stray, and no comment counts twice. -/
theorem Stack.live_append_stray (stack : Stack BlockHead RowHead) :
    (stack.live ++ stack.stray).Perm stack.comments := by
  match stack with
  | .empty =>
    rw [Stack.live, Stack.stray]
    exact .refl _
  | .block head rows next =>
    rw [Stack.live, Stack.stray, Stack.comments_block]
    split_ifs
    · simp
    · simpa only [List.append_assoc] using
        ((Rows.live_append_strayBelow rows).append_right next.comments).append_left head.comment.toList

/-- A comment below a value is of a live value or is stray, and no comment counts twice. -/
theorem Rows.live_append_strayBelow (rows : Rows BlockHead RowHead) :
    (rows.live ++ rows.strayBelow).Perm rows.comments := by
  match rows with
  | .nil =>
    rw [Rows.live, Rows.strayBelow]
    exact .refl _
  | .cons row plugged rest =>
    rw [Rows.live, Rows.strayBelow, Rows.comments_cons]
    have later := Rows.live_append_strayBelow rest
    split_ifs
    · have here := Stack.live_append_stray plugged
      refine List.perm_iff_count.mpr fun comment => ?_
      have count := here.count_eq comment
      have counts := later.count_eq comment
      simp only [List.count_append] at count counts ⊢
      omega
    · refine List.perm_iff_count.mpr fun comment => ?_
      have counts := later.count_eq comment
      simp only [List.count_append, List.nil_append] at counts ⊢
      omega

end

namespace Rows

theorem live_sublist_lifted (rows : Rows BlockHead RowHead) : rows.live.Sublist rows.lifted := by
  match rows with
  | .nil =>
    rw [live, lifted]
  | .cons row plugged rest =>
    rw [live, lifted]
    refine List.Sublist.append ?_ rest.live_sublist_lifted
    split_ifs
    · exact plugged.live_sublist
    · exact List.nil_sublist _

/-- A comment that is lifted is of a live value or is stray, and no comment counts twice. -/
theorem live_append_stray (rows : Rows BlockHead RowHead) : (rows.live ++ rows.stray).Perm rows.lifted := by
  match rows with
  | .nil =>
    rw [live, stray, lifted]
    exact .refl _
  | .cons row plugged rest =>
    rw [live, stray, lifted]
    have later := rest.live_append_stray
    split_ifs
    · have here := plugged.live_append_stray
      refine List.perm_iff_count.mpr fun comment => ?_
      have count := here.count_eq comment
      have counts := later.count_eq comment
      simp only [List.count_append] at count counts ⊢
      omega
    · simpa using later

/-- Only comments of live values are lifted where there are no others. -/
theorem lifted_eq_live_iff (rows : Rows BlockHead RowHead) : rows.lifted = rows.live ↔ rows.stray = [] := by
  -- a sublist that is as long is the whole list
  have length := rows.live_append_stray.length_eq
  rw [List.length_append] at length
  constructor
  · intro same
    rw [same] at length
    exact List.length_eq_zero_iff.mp (by omega)
  · intro none
    rw [none, List.length_nil, Nat.add_zero] at length
    exact (rows.live_sublist_lifted.eq_of_length length).symm

end Rows

end Live

section Enabled

variable {tight : Prop}

mutual

/-- In a value of known type without disabled blocks all comments are of live values. -/
theorem Stack.stray_of_operand {stack : Stack BlockHead RowHead} (ready : stack.Ready true tight)
    (operand : stack.IsOperand) (enabled : ∀ head ∈ stack.heads, head.disabled = false) :
    stack.stray = [] := by
  match stack with
  | .empty => rw [Stack.stray]
  | .block head rows next =>
    obtain ⟨isValue, _, rfl⟩ := operand
    have here := ready.1
    obtain ⟨enabledHere, enabledRows⟩ := List.forall_mem_cons.mp enabled
    rw [Stack.stray, enabledHere, if_neg (by simp)]
    cases named : BlockKind.ofName? head.type with
    | none =>
      rw [named] at here
      cases here
    | some kind =>
      rw [named] at here
      have form : kind.shape.isValue := by simpa [BlockHead.isValue, named] using isValue
      rw [Rows.strayBelow_of_values here.2 (rows_of_value form _) fun head among =>
        enabledRows head (List.mem_append_left _ among)]
      rfl

/-- Below sockets of values without disabled blocks all comments are of live values. -/
theorem Rows.strayBelow_of_values {rows : Rows BlockHead RowHead} {specs : List RowSpec}
    (ready : rows.Ready true tight specs) (values : ∀ spec ∈ specs, spec.2.1 = .value)
    (enabled : ∀ head ∈ rows.heads, head.disabled = false) :
    rows.strayBelow = [] := by
  match rows with
  | .nil => rw [Rows.strayBelow]
  | .cons row plugged rest =>
    obtain ⟨spec, others, rfl, rfl, operand, readyHere, readyRest⟩ := ready
    obtain ⟨isValue, valuesRest⟩ := List.forall_mem_cons.mp values
    obtain ⟨enabledHere, enabledRest⟩ := List.forall_mem_append.mp enabled
    rw [Rows.strayBelow, if_pos (show spec.head.kind = .value from isValue),
      Stack.stray_of_operand readyHere (operand isValue) enabledHere,
      Rows.strayBelow_of_values readyRest valuesRest enabledRest]
    rfl

end

/-- A block of known type without disabled blocks below it lifts only comments of live values. -/
theorem Rows.stray_of_ready {rows : Rows BlockHead RowHead} {specs : List RowSpec}
    (ready : rows.Ready true tight specs) (enabled : ∀ head ∈ rows.heads, head.disabled = false) :
    rows.stray = [] := by
  match rows with
  | .nil => rw [Rows.stray]
  | .cons row plugged rest =>
    obtain ⟨spec, others, rfl, rfl, operand, readyHere, readyRest⟩ := ready
    obtain ⟨enabledHere, enabledRest⟩ := List.forall_mem_append.mp enabled
    rw [Rows.stray, Rows.stray_of_ready readyRest enabledRest, List.append_nil]
    split_ifs with isValue
    · exact Stack.stray_of_operand readyHere (operand isValue) enabledHere
    · rfl

mutual

/-- The blocks of a part of a stack are blocks of the stack. -/
theorem Stack.heads_of_mem_parts {α β : Type} {stack part : Stack α β} (member : part ∈ stack.parts) :
    part.heads ⊆ stack.heads := by
  match stack with
  | .empty =>
    rw [Stack.parts, List.mem_singleton] at member
    rw [member]
    exact List.Subset.refl _
  | .block head rows next =>
    rw [Stack.parts, List.mem_cons, List.mem_append] at member
    rcases member with rfl | inRows | inNext
    · exact List.Subset.refl _
    · exact fun other among => List.mem_cons_of_mem
        _ (List.mem_append_left _ (Rows.heads_of_mem_parts inRows among))
    · exact fun other among => List.mem_cons_of_mem
        _ (List.mem_append_right _ (Stack.heads_of_mem_parts inNext among))

/-- The blocks of a stack in some rows are blocks in the rows. -/
theorem Rows.heads_of_mem_parts {α β : Type} {rows : Rows α β} {part : Stack α β}
    (member : part ∈ rows.parts) :
    part.heads ⊆ rows.heads := by
  match rows with
  | .nil => cases member
  | .cons label plugged rest =>
    rw [Rows.parts, List.mem_append] at member
    rcases member with here | later
    · exact fun other among => List.mem_append_left _ (Stack.heads_of_mem_parts here among)
    · exact fun other among => List.mem_append_right _ (Rows.heads_of_mem_parts later among)

end

end Enabled

namespace Workspace

variable {ws : Workspace}

/-- No block of a workspace is disabled. -/
def IsEnabled (ws : Workspace) : Prop := ∀ b < ws.blocks.size, (ws.block b).disabled = false

/-- Where no block is disabled, none of a stack is. -/
theorem IsEnabled.stack? (enabled : ws.IsEnabled) {b : Option Nat} {stack : Stack BlockHead RowHead}
    (found : ws.stack? b = some stack) : ∀ head ∈ stack.heads, head.disabled = false := by
  intro head member
  obtain ⟨b, rfl⟩ := (hangs_of_stack? found).heads head member
  by_cases inside : b < ws.blocks.size
  · exact enabled b inside
  · have outside : ws.block b = default := by simp [block, inside]
    show (ws.block b).disabled = false
    rw [outside]
    rfl

end Workspace

/-- What the comments above a block are that is not plugged in, in a loaded workspace: its own, and then those
of all blocks in its sockets of values and below these. The comments of live values are among them, in order;
they are all where no other comments are lifted, and so where all types are known and no block is disabled. -/
theorem Emitter.finish_lifts {emitter : Emitter} {strict : Bool} {oneBased : Option Bool} {data : Json}
    {ws : Workspace} (loaded : loadWorkspace strict oneBased data = .ok ws)
    (proper : data.All Json.IsProper) {b : Nat} (top : b ∈ ws.topBlocks) :
    ∃ stack, ws.stack? (some b) = some stack ∧ ∀ head rows next, .block head rows next ∈ stack.parts →
      head.inline = false →
      (∀ code before text after,
        Yields (Site.finish ⟨head, emitter.sockets rows, emitter.emit next⟩ code) before text after →
        ∃ output, Yields (emitter.emit next) before output after ∧
          text.toList = unlines (head.ownLines ++ rows.lifted.flatMap (ledLines "// ")) ++ code.toList ++
          output.code.toList) ∧
      rows.live.Sublist rows.lifted ∧ (rows.live ++ rows.stray).Perm rows.lifted ∧
      (rows.lifted = rows.live ↔ rows.stray = []) ∧ (ws.IsKnown → ws.IsEnabled → rows.stray = []) := by
  obtain ⟨document, described, _, loads⟩ := loads_of_loadWorkspace loaded
  obtain ⟨rows, next, found, _⟩ := loads.ready described proper (fun none : False => none.elim)
    (fun unknown : false = true => by cases unknown) top
  refine ⟨_, found, fun head rows next inside loose =>
    ⟨?_, rows.live_sublist_lifted, rows.live_append_stray, rows.lifted_eq_live_iff,
    fun isKnown enabled => ?_⟩⟩
  · intro code before text after yields
    rw [Site.finish, yields_bind] at yields
    obtain ⟨output, there, below, yields⟩ := yields
    obtain ⟨rfl, rfl⟩ := yields_pure.mp yields
    refine ⟨output, below, ?_⟩
    rw [String.toList_append, String.toList_append, toList_comments loose]
  · obtain ⟨_, _, same, _, ready, fits⟩ := loads.ready described proper (fun none : False => none.elim)
      (fun _ : true = true => isKnown) top
    cases found.symm.trans same
    obtain ⟨readyPart, _⟩ := ready.parts fits _ inside
    have here := readyPart.1
    have enabledRows : ∀ head ∈ rows.heads, head.disabled = false := fun other among =>
      enabled.stack? found other
        (Stack.heads_of_mem_parts inside (List.mem_cons_of_mem _ (List.mem_append_left _ among)))
    cases named : BlockKind.ofName? head.type with
    | none =>
      rw [named] at here
      cases here
    | some kind =>
      rw [named] at here
      exact Rows.stray_of_ready here.2 enabledRows

/-- A print with a comment in its value, in a branch that has a comment of its own. -/
theorem Emitter.finish_lifts_print :
    let value := Json.object [("type", .text "text"), ("comment", .text "what is said")]
    let printed := Json.object [("type", .text "text_print"), ("inputs", .object [("TEXT", value)])]
    let branch :=
      Json.object [("type", .text "controls_if"), ("comment", .text "always"),
        ("inputs", .object [("DO0", printed)])]
    let data := Json.object [("name", .text "lifted"), ("blocks", .list [branch])]
    let emitter : Emitter := {}
    ∃ ws, loadWorkspace false none data = .ok ws ∧ ws.IsKnown ∧ ws.IsEnabled ∧
      ∃ stack, ws.stack? (some 0) = some stack ∧ ∀ head rows next, .block head rows next ∈ stack.parts →
        head.inline = false →
        (∀ code before text after,
          Yields (Site.finish ⟨head, emitter.sockets rows, emitter.emit next⟩ code) before text after →
          ∃ output, Yields (emitter.emit next) before output after ∧
            text.toList = unlines (head.ownLines ++ rows.lifted.flatMap (ledLines "// ")) ++ code.toList ++
            output.code.toList) ∧
        rows.live.Sublist rows.lifted ∧ (rows.live ++ rows.stray).Perm rows.lifted ∧
        (rows.lifted = rows.live ↔ rows.stray = []) ∧ (ws.IsKnown → ws.IsEnabled → rows.stray = []) := by
  intro value printed branch data emitter
  have holds : (loadWorkspace false none data).toOption.any fun ws =>
      (List.range ws.blocks.size).all (fun b => isKnownType (ws.block b).type && !(ws.block b).disabled) &&
        ws.topBlocks.contains 0 := by decide +kernel
  obtain ⟨ws, loaded, passes⟩ := exists_ok_of_any holds
  simp only [Bool.and_eq_true, List.all_eq_true, List.mem_range, List.contains_iff_mem,
    Bool.not_eq_true'] at passes
  obtain ⟨blocks, top⟩ := passes
  have proper : data.All Json.IsProper := by
    simp [data, branch, printed, value, Json.All, Json.AllMembers, Json.AllItems, Json.IsProper, Table.keys]
  exact ⟨ws, loaded, fun b inside => (blocks b inside).1, fun b inside => (blocks b inside).2,
    emitter.finish_lifts loaded proper top⟩

/-- A print lifts the comment of a disabled value, and that of a statement in a value of a type that is not
known. -/
theorem Emitter.finish_lifts_stray :
    let off := Json.object [("type", .text "text"), ("disabled", .bool true), ("comment", .text "off")]
    let inside := Json.object [("type", .text "text_print"), ("comment", .text "inside")]
    let unknown := Json.object [("type", .text "mystery"), ("inputs", .object [("STACK", inside)])]
    ∀ entry ∈ [(off, "off"), (unknown, "inside")],
      let printed := Json.object [("type", .text "text_print"), ("inputs", .object [("TEXT", entry.1)])]
      let data := Json.object [("name", .text "stray"), ("blocks", .list [printed])]
      ∃ ws, loadWorkspace false none data = .ok ws ∧ 0 ∈ ws.topBlocks ∧ ∃ head rows next,
        ws.stack? (some 0) = some (.block head rows next) ∧ head.inline = false ∧ rows.lifted = [entry.2] ∧
          rows.live = [] := by
  intro off inside unknown entry among
  extract_lets printed data
  have holds : (loadWorkspace false none data).toOption.any fun ws =>
      ws.topBlocks.contains 0 && (ws.stack? (some 0)).any fun stack =>
        match stack with
        | .block head rows _ => !head.inline && rows.lifted = [entry.2] && rows.live = []
        | .empty => false := by
    simp only [List.mem_cons, List.not_mem_nil, or_false] at among
    rcases among with rfl | rfl <;> decide +kernel
  obtain ⟨ws, loaded, passes⟩ := exists_ok_of_any holds
  obtain ⟨top, shown⟩ := Bool.and_eq_true_iff.mp passes
  obtain ⟨stack, found, shown⟩ := (Option.any_eq_true _ _).mp shown
  cases stack with
  | empty => cases shown
  | block head rows next =>
    simp only [Bool.and_eq_true, Bool.not_eq_true', decide_eq_true_eq] at shown
    obtain ⟨⟨loose, lifted⟩, live⟩ := shown
    exact ⟨ws, loaded, List.contains_iff_mem.mp top, head, rows, next, found, loose, lifted, live⟩

end BlockCompiler

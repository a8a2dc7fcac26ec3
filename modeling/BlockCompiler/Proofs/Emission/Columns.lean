import BlockCompiler.Proofs.Emission.Lifted
import BlockCompiler.Proofs.Text.Filled

/-!
The columns of comments: how wide the lines of a block's own comment are above its code. The room for a line
is what a lead of three characters leaves of the columns. The lead of a procedure is longer by one, and so is
a line of it that fills the room.
-/

namespace BlockCompiler

/-- What stands before the lines of the comment of a block, by the type of the block. -/
def remarkLead (type : String) : List Char := (if isProcedureDefinition type then "/// " else "// ").toList

/-- A line of a comment keeps to the columns behind its lead, or it is one word that is longer than the room
there. -/
def KeepsColumns (lead line : List Char) : Prop :=
  lead.length + line.length ≤ commentColumns ∨ IsOneWord line ∧ commentColumns < lead.length + line.length

instance (lead line : List Char) : Decidable (KeepsColumns lead line) :=
  inferInstanceAs (Decidable (_ ∨ _ ∧ _))

/-- What fits the room that is given to all comments keeps to the columns, but for lines of a procedure that
fill the room. -/
theorem keepsColumns_iff {type : String} {line : List Char}
    (fits : line.length ≤ commentColumns - 3 ∨ IsOneWord line) :
    KeepsColumns (remarkLead type) line ↔
      ¬ (isProcedureDefinition type ∧ line.length = commentColumns - 3 ∧ ¬ IsOneWord line) := by
  have columns : commentColumns = 60 := rfl
  unfold KeepsColumns
  cases procedure : isProcedureDefinition type with
  | false =>
    have lead : (remarkLead type).length = 3 := by simp [remarkLead, procedure]
    simp only [lead, Bool.false_eq_true, false_and, not_false_eq_true, iff_true]
    rcases fits with short | word
    · exact .inl (by omega)
    · exact (Nat.lt_or_ge commentColumns (3 + line.length)).symm.imp id fun long => ⟨word, long⟩
  | true =>
    have lead : (remarkLead type).length = 4 := by simp [remarkLead, procedure]
    simp only [lead, true_and, not_and, not_not]
    constructor
    · rintro (short | ⟨word, _⟩) full
      · omega
      · exact word
    · intro unlessFull
      by_cases short : 4 + line.length ≤ commentColumns
      · exact .inl short
      · refine .inr ⟨?_, by omega⟩
        rcases fits with within | word
        · exact unlessFull (by omega)
        · exact word

/-- What stands before the code of a block that is not plugged into another: its own comment, line by line
behind the lead, and then what it lifts. -/
theorem Site.yields_finish {site : Site} {comment : String} (loose : site.head.inline = false)
    (commented : site.head.comment = some comment) {code text : String} {before after : Pass} :
    Yields (site.finish code) before text after ↔ ∃ output, Yields site.below before output after ∧
      text.toList =
        unlines ((splitLines (wrap (commentColumns - 3) comment).toList).map
        (remarkLead site.head.type ++ ·)) ++
        ((String.join (site.sockets.map Site.liftedComments)).toList ++ code.toList ++
        output.code.toList) := by
  have above : site.comments.toList =
      unlines ((splitLines (wrap (commentColumns - 3) comment).toList).map
        (remarkLead site.head.type ++ ·)) ++
        (String.join (site.sockets.map Site.liftedComments)).toList := by
    rw [Site.comments, loose, if_neg (by simp), String.toList_append, toList_ownComment,
      BlockHead.ownLines, commented,
      Option.elim_some, ledLines, remarkLead]
  have whole : ∀ output : Output, (site.comments ++ code ++ output.code).toList =
      unlines ((splitLines (wrap (commentColumns - 3) comment).toList).map
        (remarkLead site.head.type ++ ·)) ++
        ((String.join (site.sockets.map Site.liftedComments)).toList ++ code.toList ++
          output.code.toList) := by
    intro output
    rw [String.toList_append, String.toList_append, above]
    simp only [List.append_assoc]
  rw [Site.finish, yields_bind]
  constructor
  · rintro ⟨output, there, below, ended⟩
    obtain ⟨rfl, rfl⟩ := yields_pure.mp ended
    exact ⟨output, below, whole output⟩
  · rintro ⟨output, below, shape⟩
    exact ⟨output, after, below,
      yields_pure.mpr ⟨String.toList_inj.mp (shape.trans (whole output).symm), rfl⟩⟩

/-- The comment of a block that is not plugged into another stands above its code in lines with the lead
before each. All of it is in these lines, in order, but for blanks. A line keeps to the columns, or is one
word that is longer than the room behind the lead, unless it is a line of several words in the comment of a
procedure that fills the room behind a shorter lead. -/
theorem Emitter.finish_wraps {emitter : Emitter} {ws : Workspace} {b : Nat}
    {stack : Stack BlockHead RowHead} {site : Site} {comment : String}
    (found : ws.stack? (some b) = some stack) (shown : emitter.site? stack = some site)
    (loose : ws.isInline b = false) (commented : (ws.block b).comment = some comment) :
    ∃ lines : List (List Char), (∀ line ∈ lines, '\n' ∉ line) ∧
      (∀ code before text after, Yields (site.finish code) before text after ↔
        ∃ output, Yields site.below before output after ∧
        text.toList = unlines (lines.map (remarkLead (ws.block b).type ++ ·)) ++
          ((String.join (site.sockets.map Site.liftedComments)).toList ++ code.toList ++
          output.code.toList)) ∧
      inked lines.flatten = inked comment.toList ∧
      ∀ line ∈ lines, KeepsColumns (remarkLead (ws.block b).type) line ↔
        ¬ (isProcedureDefinition (ws.block b).type ∧ line.length = commentColumns - 3 ∧
        ¬ IsOneWord line) := by
  obtain ⟨head, rows, next, rfl⟩ : ∃ head rows next, stack = .block head rows next := by
    cases stack with
    | empty => cases shown
    | block head rows next => exact ⟨head, rows, next, rfl⟩
  obtain rfl := ws.head_of_stack? found
  obtain rfl : _ = site := Option.some.inj shown
  refine ⟨splitLines (wrap (commentColumns - 3) comment).toList, (exists_splitLines _).2.1,
    fun code before text after => Site.yields_finish loose commented, ?_, fun line member =>
    keepsColumns_iff (width_of_mem_wrap member)⟩
  rw [inked_splitLines, inked_wrap]

/-- A print with a comment that is too long for one line. -/
theorem Emitter.finish_wraps_print :
    let comment := "Says what the number of the day is, and says it again as long as anybody may ask for it."
    let printed := Json.object [("type", .text "text_print"), ("comment", .text comment)]
    let data := Json.object [("name", .text "wrapped"), ("blocks", .list [printed])]
    let emitter : Emitter := {}
    ∃ ws stack site, loadWorkspace true none data = .ok ws ∧ ws.stack? (some 0) = some stack ∧
      emitter.site? stack = some site ∧
      ws.isInline 0 = false ∧ (ws.block 0).comment = some comment ∧
        ∃ lines : List (List Char), (∀ line ∈ lines, '\n' ∉ line) ∧
        (∀ code before text after, Yields (site.finish code) before text after ↔
          ∃ output, Yields site.below before output after ∧
          text.toList = unlines (lines.map (remarkLead (ws.block 0).type ++ ·)) ++
            ((String.join (site.sockets.map Site.liftedComments)).toList ++ code.toList ++
            output.code.toList)) ∧
        inked lines.flatten = inked comment.toList ∧
        ∀ line ∈ lines, KeepsColumns (remarkLead (ws.block 0).type) line ↔
          ¬ (isProcedureDefinition (ws.block 0).type ∧ line.length = commentColumns - 3 ∧
            ¬ IsOneWord line) := by
  intro comment printed data emitter
  have holds : (loadWorkspace true none data).toOption.any fun ws =>
      ((ws.stack? (some 0)).any fun stack => stack.head?.isSome) && !ws.isInline 0 && (ws.block 0).comment =
        some comment := by
    decide +kernel
  obtain ⟨ws, loaded, passes⟩ := exists_ok_of_any holds
  simp only [Bool.and_eq_true, Bool.not_eq_true', decide_eq_true_eq] at passes
  obtain ⟨⟨stacked, loose⟩, commented⟩ := passes
  obtain ⟨stack, found, filled⟩ := (Option.any_eq_true _ _).mp stacked
  cases stack with
  | empty => cases filled
  | block head rows next =>
    exact ⟨ws, _, _, loaded, found, rfl, loose, commented, emitter.finish_wraps found rfl loose commented⟩

/-- A line of the comment of a procedure goes one column too far, though it has several words. -/
theorem Emitter.finish_exceeds :
    let comment := "Blinks the lamp slowly until somebody presses the button."
    let procedure := Json.object [("type", .text "procedures_defnoreturn"), ("comment", .text comment)]
    let data := Json.object [("name", .text "w"), ("blocks", .list [procedure])]
    let emitter : Emitter := {}
    ∃ ws stack site, loadWorkspace true none data = .ok ws ∧ ws.IsKnown ∧ ws.stack? (some 0) = some stack ∧
      emitter.site? stack = some site ∧ ws.isInline 0 = false ∧
      site.ownComment.toList = unlines [remarkLead (ws.block 0).type ++ comment.toList] ∧
      ¬ KeepsColumns (remarkLead (ws.block 0).type) comment.toList ∧
      ∃ source, (emitter.source ws).1 = .ok source ∧
        remarkLead (ws.block 0).type ++ comment.toList ∈ splitLines source.toList := by
  intro comment procedure data emitter
  have holds : (loadWorkspace true none data).toOption.any fun ws =>
      ((List.range ws.blocks.size).all fun b => isKnownType (ws.block b).type) && !ws.isInline 0 &&
        ((ws.stack? (some 0)).bind emitter.site?).any (fun site =>
          site.ownComment.toList = unlines [remarkLead (ws.block 0).type ++ comment.toList]) &&
        !KeepsColumns (remarkLead (ws.block 0).type) comment.toList &&
        (emitter.source ws).1.toOption.any fun source => remarkLead (ws.block 0).type ++ comment.toList ∈
          splitLines source.toList := by
    decide +kernel
  obtain ⟨ws, loaded, passes⟩ := exists_ok_of_any holds
  simp only [Bool.and_eq_true, Bool.not_eq_true', List.all_eq_true, List.mem_range,
    decide_eq_false_iff_not] at passes
  obtain ⟨⟨⟨⟨isKnown, loose⟩, sited⟩, exceeds⟩, compiled⟩ := passes
  obtain ⟨site, there, own⟩ := (Option.any_eq_true _ _).mp sited
  obtain ⟨stack, found, shown⟩ := Option.bind_eq_some_iff.mp there
  obtain ⟨source, ended, inSource⟩ := exists_ok_of_any compiled
  exact ⟨ws, stack, site, loaded, isKnown, found, shown, loose, of_decide_eq_true own, exceeds, source, ended,
    of_decide_eq_true inSource⟩

end BlockCompiler

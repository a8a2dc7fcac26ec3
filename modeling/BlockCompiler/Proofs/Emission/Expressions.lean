import BlockCompiler.Proofs.Emission.Comments
import BlockCompiler.Proofs.Emission.Trees

/-!
The code of a tree of value blocks is the expression that the tree stands for: parentheses stand where the
grammar needs them.
-/

namespace BlockCompiler

namespace Emitter

/-- A pass is sound at its start. -/
theorem sound_start (emitter : Emitter) (ws : Workspace) : (emitter.start ws).Sound := by
  have plain := Registry.plain_ofReserved emitter.reserved
  unfold start
  extract_lets pass
  split_ifs with none
  · exact ⟨plain, fun defined => by cases defined⟩
  · refine ⟨plain.getNames _ _, fun defined => ?_⟩
    cases defined

end Emitter

/-- A code that is written for an expression is read as it, with comments before it or not. -/
theorem Writes.parses {code above : String} {order : Order} {e : Expr} (writes : Writes code order e)
    (comments : Leads above.toList []) :
    ∃ f, parse (above ++ code) = some f ∧ f.Alike e ∧ ∃ level, rootLevel? (above ++ code) = some level ∧
    level ≤ order := by
  obtain ⟨f, level, tokens, spells, written, le, alike⟩ := writes.written
  have whole : lex (above ++ code).toList = some tokens := by
    rw [String.toList_append]
    simpa using (comments.append_spells spells).lex
  have reads : ∀ looser, level ≤ looser → parseOf looser (above ++ code) = some f := by
    intro looser le
    rw [parseOf, whole, Option.bind_some, written.parseTokens le]
  obtain ⟨root, found, tighter⟩ := rootLevel?_le (reads level (Nat.le_refl _))
  exact ⟨f, reads .none (le_none _), alike, root, found, Nat.le_trans tighter le⟩

theorem isProcedureDefinition_of_value {type : String} {kind : BlockKind}
    (known : BlockKind.ofName? type = some kind) (isValue : kind.shape.isValue) :
    isProcedureDefinition type = false := by
  rw [← BlockKind.name_of_ofName? known]
  revert isValue
  cases kind <;> decide

/-- The code of a value block is read back as the expression that the tree of the block stands for, up to how
conjunctions and disjunctions are associated, and its root binds no looser than the order that comes with it.
Only a whole number that is too long to be written leaves a block without code, and none is where numbers are
known to be short. -/
theorem Emitter.emitBlock_parses {emitter : Emitter} (templates : emitter.templates = knownTemplates)
    {tight : Prop} {ws : Workspace} {b : Nat} {head : BlockHead} {rows : Rows BlockHead RowHead}
    (stack : ws.stack? (some b) = some (.block head rows .empty)) (isValue : head.isValue)
    (enabled : head.disabled = false) (ready : (Stack.block head rows .empty).Ready true tight)
    (meets : (Stack.block head rows .empty).Meets none) {before : Pass} (sound : before.Sound) :
    Runs (fun error => ¬ tight ∧ error = .numeral .tooLongToWrite) (emitter.emitBlock ws (some b)) before
      fun output after => ∃ code order tree e, output = .value code order ∧ after.Sound ∧
        (Stack.block head rows .empty).tree? after = some tree ∧ parse code = some e ∧ e.Alike tree ∧
        ∃ level, rootLevel? code = some level ∧ level ≤ order := by
  have strict : emitter.strict → true = true := fun _ => rfl
  have plain : isProcedureDefinition head.type = false := by
    have readyHere := ready.1
    cases known : BlockKind.ofName? head.type with
    | none =>
      rw [known] at readyHere
      cases readyHere
    | some kind =>
      exact isProcedureDefinition_of_value known (by simpa [BlockHead.isValue, known] using isValue)
  have comments := Site.leads_comments ⟨head, emitter.sockets rows, emitter.emit .empty⟩ plain
  have emits := emits_alone templates strict isValue enabled ready
    (emits_operands templates strict rows) before
  rw [Emitter.emitBlock, stack]
  refine (emits sound).imp ?_
  rintro output after ⟨soundAfter, _, code, order, rfl, e, writes, _, meant, _⟩
  obtain ⟨f, parsed, alike, level⟩ := writes.parses comments
  exact ⟨_, order, e, f, rfl, soundAfter, meant meets after .refl, parsed, alike, level⟩

/-- A difference within a difference: the inner one stands in parentheses. -/
theorem Emitter.emitBlock_parses_difference :
    let ws : Workspace :=
      { blocks := #[
          { type := "math_arithmetic", fields := [("OP", .text "MINUS")], output := some 0,
            rows := [⟨.value, "A", some 1⟩, ⟨.value, "B", some 2⟩] },
          { type := "math_arithmetic", fields := [("OP", .text "MINUS")], output := some 3,
            rows := [⟨.value, "A", some 4⟩, ⟨.value, "B", some 5⟩] }]
        connections := #[{ owner := 0, kind := .outputValue }, { owner := 0, kind := .inputValue },
          { owner := 0, kind := .inputValue, target := some 3 },
          { owner := 1, kind := .outputValue, target := some 2 },
          { owner := 1, kind := .inputValue }, { owner := 1, kind := .inputValue }] }
    let emitter : Emitter := {}
    ∃ rows, ws.stack? (some 0) = some (.block (ws.head 0) rows .empty) ∧
      Runs (fun error => ¬ True ∧ error = .numeral .tooLongToWrite) (emitter.emitBlock ws (some 0))
        (emitter.start ws)
        fun output after => ∃ code order tree e, output = .value code order ∧ after.Sound ∧
          (Stack.block (ws.head 0) rows .empty).tree? after = some tree ∧ parse code = some e ∧ e.Alike tree ∧
          ∃ level, rootLevel? code = some level ∧ level ≤ order := by
  intro ws emitter
  let vacant : Rows BlockHead RowHead := .cons ⟨.value, "A"⟩ .empty (.cons ⟨.value, "B"⟩ .empty .nil)
  let rows : Rows BlockHead RowHead :=
    .cons ⟨.value, "A"⟩ .empty (.cons ⟨.value, "B"⟩ (.block (ws.head 1) vacant .empty) .nil)
  have valid : ∀ b < 2, (ws.head b).Valid True .arithmetic := by
    intro b small
    have number : numberIn ((ws.head b).field "NUM") = .ok (.int 0) := by
      obtain rfl | rfl : b = 0 ∨ b = 1 := by omega
      · rfl
      · rfl
    have short : ∀ n, numberIn ((ws.head b).field "NUM") = .ok n → n.Short := by
      intro n found whole same
      rw [number] at found
      cases found
      cases same
      exact Nat.lt_of_lt_of_le (show 0 < tenTo 0 by decide) (tenTo_mono (Nat.zero_le _))
    obtain rfl | rfl : b = 0 ∨ b = 1 := by omega
    · exact ⟨⟨"", rfl⟩, ⟨"", rfl⟩, by decide, fun _ => short⟩
    · exact ⟨⟨"", rfl⟩, ⟨"", rfl⟩, by decide, fun _ => short⟩
  have readyVacant : vacant.Ready true True (BlockKind.rows .arithmetic []) :=
    ⟨_, _, rfl, rfl, fun _ => trivial, trivial, _, _, rfl, rfl, fun _ => trivial, trivial, rfl⟩
  have inner : (Stack.block (ws.head 1) vacant .empty).Ready true True :=
    ⟨⟨valid 1 (by decide), readyVacant⟩, trivial⟩
  have operand : (Stack.block (ws.head 1) vacant .empty).IsOperand := ⟨by rfl, by rfl, rfl⟩
  have ready : (Stack.block (ws.head 0) rows .empty).Ready true True :=
    ⟨⟨valid 0 (by decide), _, _, rfl, rfl, fun _ => trivial, trivial, _, _, rfl, rfl, fun _ => operand, inner,
      rfl⟩, trivial⟩
  have meets : (Stack.block (ws.head 0) rows .empty).Meets none := by
    have kindOf : BlockKind.ofName? "math_arithmetic" = some .arithmetic := by decide
    have meetsVacant : vacant.Meets (BlockKind.rows .arithmetic []) :=
      ⟨fun _ _ => trivial, fun _ _ => trivial, trivial⟩
    have meetsInner : (Stack.block (ws.head 1) vacant .empty).Meets numberCheck := by
      refine ⟨by rfl, fun kind known => ?_⟩
      cases kindOf.symm.trans known
      exact meetsVacant
    refine ⟨by rfl, fun kind known => ?_⟩
    cases kindOf.symm.trans known
    refine ⟨fun _ _ => trivial, fun spec among => ?_, trivial⟩
    cases among
    exact meetsInner
  exact ⟨rows, rfl, emitter.emitBlock_parses rfl rfl (by rfl) rfl ready meets (emitter.sound_start ws)⟩

end BlockCompiler

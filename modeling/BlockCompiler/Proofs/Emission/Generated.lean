import BlockCompiler.Proofs.Emission.Course
import BlockCompiler.Proofs.Emission.Ready
import BlockCompiler.Proofs.Emission.Tree
import BlockCompiler.Proofs.Text.Firm

/-!
Generated blocks: those of a stack for which there is code, what of each can be seen in a line of it, and
which headers each needs.
-/

namespace BlockCompiler

section Within

/-- No identifier goes on behind the end of a code. -/
def Edged (code : List Char) : Prop := ∀ c ∈ code.getLast?, isIdentifierChar c = false

/-- A part of a code that starts where no identifier goes on from before. -/
def Within (part code : List Char) : Prop := ∃ front back, code = front ++ part ++ back ∧ Edged front

variable {part code more front : List Char}

theorem edged_nil : Edged [] := by simp [Edged]

theorem edged_append (filled : more ≠ []) (edged : Edged more) : Edged (front ++ more) := by
  unfold Edged
  rwa [List.getLast?_append_of_ne_nil _ filled]

theorem within_refl : Within part part := ⟨[], [], by simp, edged_nil⟩

theorem Within.append (within : Within part code) (more : List Char) : Within part (code ++ more) := by
  obtain ⟨front, back, rfl, edged⟩ := within
  exact ⟨front, back ++ more, by simp, edged⟩

theorem Within.behind (within : Within part code) (edged : Edged more) : Within part (more ++ code) := by
  obtain ⟨front, back, rfl, edgedFront⟩ := within
  refine ⟨more ++ front, back, by simp, ?_⟩
  cases front with
  | nil => rwa [List.append_nil]
  | cons c front => exact edged_append (by simp) edgedFront

theorem Within.trans (inner : Within part code) (outer : Within code more) : Within part more := by
  obtain ⟨front, back, rfl, edged⟩ := outer
  exact (inner.behind edged).append back

theorem Within.isInfix (within : Within part code) : part <:+: code := by
  obtain ⟨front, back, rfl, _⟩ := within
  exact ⟨front, back, rfl⟩

/-- What ends with something that is no space stays when spaces are trimmed. -/
theorem Within.trimEnd (within : Within part code) (solid : ∃ c ∈ part.getLast?, isSpaceOrTab c = false) :
    Within part (trimEnd code) := by
  obtain ⟨front, back, rfl, edged⟩ := within
  obtain ⟨c, last, isSolid⟩ := solid
  have ends : (front ++ part).getLast? = some c := by rw [List.getLast?_append, last]; rfl
  refine ⟨front, BlockCompiler.trimEnd back, trimEnd_append _ (fun d headed => ?_) fun none => ?_, edged⟩
  · cases ends.symm.trans headed
    exact isSolid
  · rw [none] at ends
    cases ends

end Within

/-- The call of a function with some arguments. -/
def callCode (name : String) (arguments : List String) : String :=
  name ++ "(" ++ joinTexts ", " arguments ++ ")"

/-- A call ends with a bracket, and no spaces are trimmed from it. -/
theorem within_trimEnd_callCode {name : String} {arguments : List String} {code : List Char}
    (within : Within (callCode name arguments).toList code) :
    Within (callCode name arguments).toList (trimEnd code) := by
  refine within.trimEnd ⟨')', ?_, by decide⟩
  rw [callCode, String.toList_append, List.getLast?_append]
  rfl

namespace BlockHead

/-- Whether a block takes one end of a list, whatever its index is. -/
def takesEnd (head : BlockHead) : Bool :=
  decide (BlockKind.ofName? head.type = some .getIndex) &&
    ((head.field "WHERE").isText "FIRST" || (head.field "WHERE").isText "LAST")

/-- The names of the rows for which a block has code generated: all of its kind, but for an index that does
not matter. -/
def reads (head : BlockHead) : List String :=
  (BlockKind.ofName? head.type).elim [] fun kind =>
    ((kind.rows head.mutation).map (·.1)).filter fun name => !(head.takesEnd && name = "AT")

/-- The headers that the code of a block needs. -/
def headers (head : BlockHead) : List String :=
  match BlockKind.ofName? head.type with
  | some .number =>
    match numberIn (head.field "NUM") with
    | .ok (.float (.infinite _)) => ["cmath"]
    | _ => []
  | some .arithmetic => if (head.field "OP").isText "POWER" then ["cmath"] else []
  | some .single => if (head.field "OP").isText "NEG" then [] else ["cmath"]
  | some .print => ["iostream"]
  | some .randomInt => ["cstdlib"]
  | _ => []

/-- What of a block can be seen in a code, under the names of a pass: the literal of a text, the call of the
helper function for two numbers, the call of a procedure with an argument for each row of the block. -/
def IsSeen (head : BlockHead) (pass : Pass) (code : List Char) : Prop :=
  match BlockKind.ofName? head.type with
  | some .text => Within (literal (head.field "TEXT").word).toList code
  | some .randomInt =>
    ∃ name low high, pass.randomInt? = some name ∧ Within (callCode name [low, high]).toList code
  | some .callProcedure => ∃ name arguments,
      pass.names.assigned.get? (nameKey (head.field "NAME").word .procedure) = some name ∧
      arguments.length = head.reads.length ∧ Within (callCode name arguments).toList code
  | _ => True

/-- The headers that a block needs are included. -/
def IsIncluded (head : BlockHead) (pass : Pass) : Prop :=
  ∀ name ∈ head.headers, pass.definitions.has ("include_" ++ name)

/-- A code shows a block: what of the block can be seen is in it, and the headers of the block are
included. -/
def ShownIn (head : BlockHead) (pass : Pass) (code : List Char) : Prop :=
  head.IsSeen pass code ∧ head.IsIncluded pass

variable {head : BlockHead} {s t : Pass} {code more : List Char}

theorem IsSeen.later (seen : head.IsSeen s code) (precedes : s.Precedes t) : head.IsSeen t code := by
  unfold IsSeen at *
  split at seen
  · exact seen
  · obtain ⟨name, low, high, defined, within⟩ := seen
    exact ⟨name, low, high, precedes.grows.helper name defined, within⟩
  · obtain ⟨name, arguments, assigned, each, within⟩ := seen
    exact ⟨name, arguments, precedes.grows.names _ _ assigned, each, within⟩
  · trivial

theorem IsIncluded.later (included : head.IsIncluded s) (precedes : s.Precedes t) : head.IsIncluded t :=
  fun name among => precedes.has _ (included name among)

theorem IsSeen.within (seen : head.IsSeen s code) (within : Within code more) : head.IsSeen s more := by
  unfold IsSeen at *
  split at seen
  · exact seen.trans within
  · obtain ⟨name, low, high, defined, inner⟩ := seen
    exact ⟨name, low, high, defined, inner.trans within⟩
  · obtain ⟨name, arguments, assigned, each, inner⟩ := seen
    exact ⟨name, arguments, assigned, each, inner.trans within⟩
  · trivial

theorem IsSeen.trimEnd (seen : head.IsSeen s code) : head.IsSeen s (trimEnd code) := by
  unfold IsSeen at *
  split at seen
  · exact Within.trimEnd seen ⟨'\x27', by simp [literal, List.getLast?_cons], by decide⟩
  · obtain ⟨name, low, high, defined, inner⟩ := seen
    exact ⟨name, low, high, defined, within_trimEnd_callCode inner⟩
  · obtain ⟨name, arguments, assigned, each, inner⟩ := seen
    exact ⟨name, arguments, assigned, each, within_trimEnd_callCode inner⟩
  · trivial

/-- A block of which nothing can be seen is seen in any code. -/
theorem isSeen_of_kind {kind : BlockKind} (named : BlockKind.ofName? head.type = some kind)
    (unseen : kind ≠ .text ∧ kind ≠ .randomInt ∧ kind ≠ .callProcedure) : head.IsSeen s code := by
  unfold IsSeen
  rw [named]
  obtain ⟨noText, noRandom, noCall⟩ := unseen
  split
  · exact absurd (Option.some.inj ‹_›) noText
  · exact absurd (Option.some.inj ‹_›) noRandom
  · exact absurd (Option.some.inj ‹_›) noCall
  · trivial

/-- A block of a kind that needs no headers. -/
theorem isIncluded_of_kind {kind : BlockKind} (named : BlockKind.ofName? head.type = some kind)
    (without : kind ∉ [.number, .arithmetic, .single, .print, .randomInt]) : head.IsIncluded s := by
  intro name among
  simp only [List.mem_cons, List.not_mem_nil, or_false, not_or] at without
  obtain ⟨noNumber, noArithmetic, noSingle, noPrint, noRandom⟩ := without
  unfold headers at among
  rw [named] at among
  split at among
  · exact absurd (Option.some.inj ‹_›) noNumber
  · exact absurd (Option.some.inj ‹_›) noArithmetic
  · exact absurd (Option.some.inj ‹_›) noSingle
  · exact absurd (Option.some.inj ‹_›) noPrint
  · exact absurd (Option.some.inj ‹_›) noRandom
  · cases among

theorem ShownIn.later (shown : head.ShownIn s code) (precedes : s.Precedes t) : head.ShownIn t code :=
  ⟨shown.1.later precedes, shown.2.later precedes⟩

theorem ShownIn.within (shown : head.ShownIn s code) (within : Within code more) : head.ShownIn s more :=
  ⟨shown.1.within within, shown.2⟩

theorem ShownIn.trimEnd (shown : head.ShownIn s code) : head.ShownIn s (trimEnd code) :=
  ⟨shown.1.trimEnd, shown.2⟩

end BlockHead

mutual

/-- The blocks of a stack for which code is generated: those that are enabled, each before what it reads. -/
def Stack.generated : Stack BlockHead RowHead → List BlockHead
  | .empty => []
  | .block head rows next =>
    (if head.disabled then [] else head :: head.reads.flatMap rows.generatedAt) ++ next.generated

/-- The blocks in the row of a name for which code is generated. -/
def Rows.generatedAt : Rows BlockHead RowHead → String → List BlockHead
  | .nil, _ => []
  | .cons row plugged rest, name => if row.name = name then plugged.generated else rest.generatedAt name

end

theorem Rows.generatedAt_eq (rows : Rows BlockHead RowHead) (name : String) :
    rows.generatedAt name = (rows.at name).generated := by
  match rows with
  | .nil =>
    rw [generatedAt, Rows.at, Stack.generated]
  | .cons row plugged rest =>
    rw [generatedAt, Rows.at]
    split_ifs
    · rfl
    · exact generatedAt_eq rest name

end BlockCompiler

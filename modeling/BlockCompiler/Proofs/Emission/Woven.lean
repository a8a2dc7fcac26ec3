import BlockCompiler.Proofs.Emission.Stacks

/-!
What the templates of statements weave: lines of code of their own, and between these, as they are, the codes
of what is in the openings.
-/

namespace BlockCompiler

/-- A line of code: nothing in it ends the line, and it starts with a character that starts no comment. -/
structure IsCodeLine (line : String) : Prop where
  oneLine : OneLine line
  starts : ∃ c, line.toList.head? = some c ∧ isBlank c = false ∧ c ≠ '/'

/-- A line ends a statement, or it opens or closes a block. -/
def EndsStatement (line : List Char) : Prop := ∃ c ∈ [';', '\x7b', '\x7d'], line.getLast? = some c

instance (line : List Char) : Decidable (EndsStatement line) := List.decidableBEx _ _

/-- A text is woven of lines of code and of some bodies, in order. -/
inductive Woven : List String → String → Prop
  | nil : Woven [] ""
  | line {line rest bodies} (isCode : IsCodeLine line) (ends : EndsStatement line.toList)
    (later : Woven bodies rest) :
    Woven bodies (line ++ "\n" ++ rest)
  | body {body rest bodies} (later : Woven bodies rest) : Woven (body :: bodies) (body ++ rest)

section Lines

variable {line more : String}

theorem IsCodeLine.append (isCode : IsCodeLine line) (oneLine : OneLine more) :
    IsCodeLine (line ++ more) := by
  obtain ⟨c, headed, solid, code⟩ := isCode.starts
  exact ⟨oneLine_append.mpr ⟨isCode.oneLine, oneLine⟩, c,
    by rw [String.toList_append, List.head?_append, headed]; rfl, solid, code⟩

theorem EndsStatement.append (ends : EndsStatement more.toList) (line : String) :
    EndsStatement (line ++ more).toList := by
  obtain ⟨c, among, last⟩ := ends
  exact ⟨c, among, by rw [String.toList_append, List.getLast?_append, last]; rfl⟩

theorem ends_semicolon (line : String) : EndsStatement (line ++ ";").toList :=
  (show EndsStatement ";".toList by decide).append line

theorem isCodeLine_word (isName : IsName line.toList) : IsCodeLine line := by
  refine ⟨oneLine_word isName, ?_⟩
  obtain ⟨filled, inName, _⟩ := isName
  cases letters : line.toList with
  | nil => exact absurd letters filled
  | cons c rest =>
    have inWord := inName c (by simp [letters])
    refine ⟨c, rfl, not_isBlank_of_isIdentifierChar inWord, ?_⟩
    rintro rfl
    cases inWord

/-- Words at the start of lines of code. -/
theorem isCodeLine_lead {lead : String} (among : lead ∈ "std::cout << " :: "int " :: frameLeads) :
    IsCodeLine lead := by
  simp only [frameLeads, List.mem_cons, List.not_mem_nil, or_false] at among
  rcases among with rfl | rfl | rfl | rfl | rfl | rfl <;> exact ⟨by decide, _, rfl, by decide, by decide⟩

end Lines

section Woven

variable {bodies others : List String} {text other : String}

theorem Woven.append (woven : Woven bodies text) (more : Woven others other) :
    Woven (bodies ++ others) (text ++ other) := by
  induction woven with
  | nil => simpa using more
  | line isCode ends _ ih =>
    rw [String.append_assoc]
    exact .line isCode ends ih
  | body _ ih =>
    rw [String.append_assoc]
    exact .body ih

theorem woven_line {line : String} (isCode : IsCodeLine line) (ends : EndsStatement line.toList) :
    Woven [] (line ++ "\n") := by
  simpa using Woven.line isCode ends .nil

theorem woven_body (body : String) : Woven [body] body := by
  simpa using @Woven.body body _ _ .nil

/-- A text is woven up to a brace that closes it, at the start of a line or behind an earlier brace. -/
def Binds (bodies : List String) (text : String) : Prop :=
  ∃ front, text = front ++ "\x7d" ∧ ∀ before ∈ ["", "\x7d else "], Woven bodies (before ++ front)

/-- The head of a block is a line of its own, and what is in the block stands as it is. -/
theorem binds_braced {head : String} (isCode : IsCodeLine head) (body : String) :
    Binds [body] (braced head body) := by
  have opening : " \x7b\n" = " \x7b" ++ "\n" := rfl
  refine ⟨head ++ " \x7b" ++ "\n" ++ body,
    by rw [braced, opening, ← String.append_assoc], fun before among => ?_⟩
  have line : IsCodeLine (before ++ (head ++ " \x7b")) := by
    have rest := isCode.append (show OneLine " \x7b" by decide)
    simp only [List.mem_cons, List.not_mem_nil, or_false] at among
    rcases among with rfl | rfl
    · rwa [String.empty_append]
    · have brace : "\x7d else " = "\x7d" ++ " else " := rfl
      rw [brace, String.append_assoc]
      exact (isCodeLine_lead (by decide)).append (oneLine_append.mpr ⟨by decide, rest.oneLine⟩)
  rw [← String.append_assoc, ← String.append_assoc]
  exact .line line ((show EndsStatement " \x7b".toList by decide).append head |>.append before)
    (woven_body body)

/-- What comes after the brace of a block starts in the line of the brace. -/
theorem Binds.followed (binds : Binds bodies text) (more : Binds others other) :
    Binds (bodies ++ others) (text ++ " else " ++ other) := by
  obtain ⟨front, rfl, woven⟩ := binds
  obtain ⟨back, rfl, wovenOther⟩ := more
  have brace : "\x7d else " = "\x7d" ++ " else " := rfl
  refine ⟨front ++ ("\x7d else " ++ back), by simp only [brace, String.append_assoc], fun before among => ?_⟩
  rw [← String.append_assoc]
  exact (woven before among).append (wovenOther _ (by simp))

/-- A last block without a condition. -/
theorem Binds.otherwise (binds : Binds bodies text) (body : String) :
    Binds (bodies ++ [body]) (text ++ (" else" ++ braced "" body)) := by
  obtain ⟨front, rfl, woven⟩ := binds
  have brace : "\x7d else \x7b" ++ "\n" = "\x7d" ++ (" else" ++ " \x7b\n") := rfl
  refine ⟨front ++ ("\x7d else \x7b" ++ "\n" ++ body), ?_, fun before among => ?_⟩
  · rw [brace, braced, String.empty_append]
    simp only [String.append_assoc]
  · rw [← String.append_assoc]
    have opening : IsCodeLine ("\x7d" ++ " else \x7b") := (isCodeLine_lead (by decide)).append (by decide)
    exact (woven before among).append (.line opening (by decide) (woven_body body))

/-- A line feed behind the last brace ends the last line. -/
theorem Binds.ended (binds : Binds bodies text) : Woven bodies (text ++ "\n") := by
  obtain ⟨front, rfl, woven⟩ := binds
  have first := woven "" (by simp)
  rw [String.empty_append] at first
  have last : Woven [] ("\x7d" ++ "\n") := woven_line (isCodeLine_lead (by decide)) (by decide)
  have whole := first.append last
  rwa [List.append_nil, ← String.append_assoc] at whole

theorem binds_joinTexts {bodies texts : List String} (filled : texts ≠ [])
    (each : List.Forall₂ (fun body text => Binds [body] text) bodies texts) :
    Binds bodies (joinTexts " else " texts) := by
  induction each with
  | nil => exact absurd rfl filled
  | @cons body text bodies texts first rest ih =>
    cases rest with
    | nil => simpa [joinTexts] using first
    | @cons next other bodies texts _ _ =>
      rw [joinTexts, String.intercalate_cons_cons]
      exact first.followed (ih (by simp))

end Woven

/-- What a template of statements gives is woven of lines of code and of the bodies in some openings. -/
def Weaves (P : String → String → Prop) (openings : List String) (output : Option Output) : Prop :=
  ∃ bodies text, output = some (.statements text) ∧ Woven bodies text ∧ List.Forall₂ P openings bodies

/-- A site gives a body as wanted in the opening of a name. -/
def Site.OpensWith (tight : Prop) (P : String → String → Prop) (site : Site) (name : String) : Prop :=
  ∀ s, Emits tight (site.statements name) s fun body _ => P name body

section Templates

variable {tight typed numeric : Prop} {site : Site} {operand : Pass → String → Option Expr} {s : Pass}
  {P : String → String → Prop}

/-- A template that gives one line has no openings. -/
theorem weaves_line {text : String} (isCode : IsCodeLine text) (ends : EndsStatement text.toList) :
    Weaves P [] (some (.statements (text ++ "\n"))) :=
  ⟨[], _, rfl, woven_line isCode ends, .nil⟩

theorem weaves_print (offers : site.OffersAt tight typed numeric "TEXT" (operand · "TEXT")) :
    Emits tight (Template.print site) s fun output _ => Weaves P [] output := by
  unfold Template.print
  refine Emission.emits_includeHeader.bind fun _ _ _ _ => ?_
  refine (offers.fills (isLiteral_quoted "") .shift).bind fun code t _ fills => ?_
  have text : s!"std::cout << {code} << std::endl;\n" =
      ("std::cout << " ++ (code ++ " << std::endl;")) ++ "\n" := by
    show "std::cout << " ++ code ++ (" << std::endl;" ++ "\n") = _
    simp only [String.append_assoc]
  rw [text]
  exact emits_pure
    (weaves_line ((isCodeLine_lead (by decide)).append (oneLine_append.mpr ⟨fills.oneLine, by decide⟩))
    ((show EndsStatement " << std::endl;".toList by decide).append code |>.append _))

/-- A line that changes a variable, whatever sign stands between the variable and the value. -/
theorem weaves_assignment {kind : BlockKind} {name sign : String} (oneLine : OneLine sign)
    (valid : site.head.Valid tight kind) (own : "VAR" ∈ kind.shape.fields.keys)
    (offers : site.OffersAt tight typed numeric name (operand · name)) :
    Emits tight (do
      let value ← site.value name .assignment "0"
      let target ← site.getVariable
      statement (target ++ sign ++ value ++ ";\n")) s fun output _ => Weaves P [] output := by
  refine (offers.fills isLiteral_zero .assignment).bind fun code t _ fills => ?_
  refine (emits_getVariable valid own).bind ?_
  rintro target u _ ⟨isName, _⟩
  have text : target ++ sign ++ code ++ ";\n" = (target ++ (sign ++ (code ++ ";"))) ++ "\n" := by
    show target ++ sign ++ code ++ (";" ++ "\n") = _
    simp only [String.append_assoc]
  rw [text]
  refine emits_pure
    (weaves_line ((isCodeLine_word isName).append ?_) ((ends_semicolon code).append sign |>.append target))
  simp only [oneLine_append]
  exact ⟨oneLine, fills.oneLine, by decide⟩

theorem weaves_setVariable (valid : site.head.Valid tight .setVariable)
    (offers : site.OffersAt tight typed numeric "VALUE" (operand · "VALUE")) :
    Emits tight (Template.setVariable site) s fun output _ => Weaves P [] output := by
  have line : OneLine " = " := by decide
  exact weaves_assignment line valid (by decide) offers

theorem weaves_change (valid : site.head.Valid tight .change)
    (offers : site.OffersAt tight typed numeric "DELTA" (operand · "DELTA")) :
    Emits tight (Template.change site) s fun output _ => Weaves P [] output := by
  have line : OneLine " += " := by decide
  exact weaves_assignment line valid (by decide) offers

theorem weaves_callProcedure (valid : site.head.Valid tight .callProcedure)
    (offers : ∀ i : Nat, ∃ numeric : Prop, site.OffersAt tight typed numeric ("ARG" ++ toString i)
      (operand · ("ARG" ++ toString i))) :
    Emits tight (Template.callProcedure site) s fun output _ => Weaves P [] output := by
  obtain ⟨params, found⟩ := valid.params
  unfold Template.callProcedure
  rw [← bind_assoc]
  refine (emits_procedure valid (by decide)).bind ?_
  rintro name t _ ⟨isName, _⟩
  refine (Emission.emits_ofCount found).bind ?_
  rintro _ u _ ⟨rfl, rfl⟩
  refine (@emits_values tight typed site operand u "ARG" offers "0" _ isLiteral_zero _ .none).bind ?_
  rintro codes v _ ⟨es, each, _, _⟩
  have oneLines : OneLine (joinTexts ", " codes) := by
    refine oneLine_joinTexts (by decide) fun code among => ?_
    obtain ⟨_, _, _, writes, _⟩ := exists_related each among
    exact writes.oneLine
  have text : ∀ arguments : String,
      s!"{name}({arguments});\n" = (name ++ ("(" ++ (arguments ++ ");"))) ++ "\n" := by
    intro arguments
    show name ++ "(" ++ arguments ++ (");" ++ "\n") = _
    simp only [String.append_assoc]
  extract_lets arguments
  rw [text]
  refine emits_pure (weaves_line ((isCodeLine_word isName).append ?_)
    ((show EndsStatement ");".toList by decide).append arguments |>.append "(" |>.append name))
  simp only [oneLine_append]
  exact ⟨by decide, oneLines, by decide⟩

/-- An arm of a branch is a line of code, and then its body up to a brace. -/
theorem binds_arm {arm : Nat} (offers : site.OffersAt tight typed numeric s!"IF{arm}" (operand · s!"IF{arm}"))
    (opens : site.OpensWith tight P s!"DO{arm}") :
    Emits tight (Template.arm site arm) s fun text _ => ∃ body, Binds [body] text ∧ P s!"DO{arm}" body := by
  unfold Template.arm
  refine (offers.fills isLiteral_false .none).bind fun condition t _ fills => ?_
  refine (opens t).bind fun body u _ holds => ?_
  have shape : s!"if ({condition})" = "if (" ++ (condition ++ ")") := by
    show "if (" ++ condition ++ ")" = _
    rw [String.append_assoc]
  rw [shape]
  exact emits_pure
    ⟨body, binds_braced ((isCodeLine_lead (by decide)).append (oneLine_append.mpr ⟨fills.oneLine, by decide⟩))
    body, holds⟩

/-- A branch weaves the bodies of its arms, and then what is done otherwise. -/
theorem weaves_branch {count : Nat} (arms : Template.armsOf site = List.range (count + 1))
    (offers : ∀ arm : Nat, ∃ numeric : Prop,
    site.OffersAt tight typed numeric s!"IF{arm}" (operand · s!"IF{arm}"))
    (opens : ∀ arm : Nat, site.OpensWith tight P s!"DO{arm}") (opensLast : site.OpensWith tight P "ELSE") :
    Emits tight (Template.branch site) s fun output _ => Weaves P
      (((List.range (count + 1)).map fun arm => s!"DO{arm}") ++ if (site.socket? "ELSE").isSome then ["ELSE"]
      else []) output := by
  unfold Template.branch
  rw [arms]
  have each : ∀ arm ∈ List.range (count + 1), ∀ s, Emits tight (Template.arm site arm) s
      fun text _ => ∃ body, Binds [body] text ∧ P s!"DO{arm}" body := by
    intro arm _ s
    obtain ⟨numeric, offersArm⟩ := offers arm
    exact binds_arm offersArm (opens arm)
  refine (emits_mapM _ each fun _ _ _ _ _ holds => holds).bind fun texts t _ related => ?_
  have filled : texts ≠ [] := by
    rintro rfl
    have length := related.length_eq
    simp at length
  obtain ⟨bodies, bound, wanted⟩ : ∃ bodies, List.Forall₂ (fun body text => Binds [body] text) bodies texts ∧
      List.Forall₂ P ((List.range (count + 1)).map fun arm => s!"DO{arm}") bodies := by
    clear filled each
    generalize List.range (count + 1) = indices at related
    induction related with
    | nil => exact ⟨[], .nil, .nil⟩
    | cons first _ ih =>
      obtain ⟨body, binds, holds⟩ := first
      obtain ⟨bodies, bound, wanted⟩ := ih
      exact ⟨body :: bodies, .cons binds bound, .cons holds wanted⟩
  have joined := binds_joinTexts filled bound
  by_cases otherwise : (site.socket? "ELSE").isSome
  · simp only [if_pos otherwise, pure_bind]
    refine (opensLast t).bind fun body u _ holds => ?_
    refine emits_pure ⟨bodies ++ [body], _, rfl, ?_, List.rel_append wanted (.cons holds .nil)⟩
    simpa [String.join_cons] using (joined.otherwise body).ended
  · simp only [if_neg otherwise, pure_bind]
    refine emits_pure ⟨bodies, _, rfl, ?_, by simpa using wanted⟩
    simpa using joined.ended

theorem woven_countingLoop {counter count : String} (isName : IsName counter.toList)
    (oneLine : OneLine count) (body : String) :
    Woven [body] (Template.countingLoop counter count body) := by
  have shape : s!"for (int {counter} = 0; {counter} < {count}; {counter}++)" =
      "for (" ++ ("int " ++ counter ++ " = 0; " ++ counter ++ " < " ++ count ++ "; " ++
        counter ++ "++)") := by
    show "for (int " ++ counter ++ " = 0; " ++ counter ++ " < " ++ count ++ "; " ++ counter ++ "++)" = _
    simp only [← String.append_assoc]
    rfl
  rw [Template.countingLoop, shape]
  have whole := oneLine_append.mp (oneLine_for isName oneLine)
  exact (binds_braced ((isCodeLine_lead (by decide)).append whole.2) body).ended

/-- A counted loop weaves its body; the count may have a line before it. -/
theorem weaves_repeatTimes (offers : site.OffersAt tight typed numeric "TIMES" (operand · "TIMES"))
    (opens : site.OpensWith tight P "DO") :
    Emits tight (Template.repeatTimes site) s fun output _ => Weaves P ["DO"] output := by
  unfold Template.repeatTimes
  refine (offers.fills isLiteral_zero .assignment).bind fun times t _ fills => ?_
  refine (opens t).bind fun body u _ holds => ?_
  refine (Emission.emits_distinctName "count" .variable).bind fun counter v _ isCounter => ?_
  split
  · exact emits_pure ⟨[body], _, rfl, woven_countingLoop isCounter fills.oneLine body, .cons holds .nil⟩
  · refine (Emission.emits_distinctName "repeat_end" .variable).bind fun bound w _ isBound => ?_
    have shape : s!"int {bound} = {times};\n" = ("int " ++ (bound ++ (" = " ++ (times ++ ";")))) ++ "\n" := by
      show "int " ++ bound ++ " = " ++ times ++ (";" ++ "\n") = _
      simp only [String.append_assoc]
    rw [shape]
    refine emits_pure ⟨[body], _,
      rfl, .line ?_ ((ends_semicolon times).append " = " |>.append bound |>.append "int ")
      (woven_countingLoop isCounter (oneLine_word isBound) body), .cons holds .nil⟩
    refine (isCodeLine_lead (by decide)).append ?_
    simp only [oneLine_append]
    exact ⟨oneLine_word isBound, by decide, fills.oneLine, by decide⟩

/-- A loop with a test weaves its body. -/
theorem weaves_whileUntil (offers : site.OffersAt tight typed numeric "BOOL" (operand · "BOOL"))
    (opens : site.OpensWith tight P "DO") :
    Emits tight (Template.whileUntil site) s fun output _ => Weaves P ["DO"] output := by
  unfold Template.whileUntil
  extract_lets isUntil
  refine (offers.fills isLiteral_false _).bind fun test t _ fills => ?_
  extract_lets turned
  refine (opens t).bind fun body u _ holds => ?_
  have oneLine : OneLine turned := by
    simp only [turned]
    split
    · exact oneLine_append.mpr ⟨by decide, fills.oneLine⟩
    · exact fills.oneLine
  have shape : s!"while ({turned})" = "while (" ++ (turned ++ ")") := by
    show "while (" ++ turned ++ ")" = _
    rw [String.append_assoc]
  rw [shape]
  refine emits_pure ⟨[body], _, rfl, (binds_braced ?_ body).ended, .cons holds .nil⟩
  exact (isCodeLine_lead (by decide)).append (oneLine_append.mpr ⟨oneLine, by decide⟩)

end Templates

end BlockCompiler

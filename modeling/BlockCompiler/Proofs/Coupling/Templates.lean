import BlockCompiler.Proofs.Coupling.Sites
import BlockCompiler.Proofs.Emission.Stacks

/-!
Templates at two sites side by side: each gives the same code at both, up to comments inside statements.
-/

namespace BlockCompiler

/-- Two texts are the same up to comments wherever in a line they stand. -/
def SameWithin (extra : Bool) (text other : String) : Prop :=
  ∀ start, Commented extra start text.toList other.toList

section Texts

variable {extra : Bool} {a b x y : String}

theorem SameWithin.refl (text : String) : SameWithin extra text text := fun _ => Commented.refl ..

theorem SameWithin.append (first : SameWithin extra a b) (second : SameWithin extra x y) :
    SameWithin extra (a ++ x) (b ++ y) := by
  intro start
  rw [String.toList_append, String.toList_append]
  exact (first start).append (second _)

/-- What is in braces starts in a line of its own. -/
theorem SameText.braced (same : SameText extra a b) (head : String) :
    SameWithin extra (braced head a) (braced head b) := by
  intro start
  have opening : ∀ body : String,
      (BlockCompiler.braced head body).toList = (head ++ " \x7b\n").toList ++ (body.toList ++ ['\x7d']) := by
    intro body
    simp [BlockCompiler.braced]
  have feeds : startsLine start (head ++ " \x7b\n").toList = true := by
    rw [String.toList_append, startsLine_append]
    rfl
  rw [opening, opening]
  refine (Commented.refl start _).append ?_
  rw [feeds]
  exact Commented.append same (Commented.refl ..)

theorem sameWithin_joinTexts {separator : String} {texts others : List String}
    (same : List.Forall₂ (SameWithin extra) texts others) :
    SameWithin extra (joinTexts separator texts) (joinTexts separator others) := by
  induction same with
  | nil => exact .refl _
  | @cons text other rest more first later ih =>
    cases later with
    | nil => simpa [joinTexts] using first
    | cons second later =>
      rw [joinTexts, joinTexts, String.intercalate_cons_cons, String.intercalate_cons_cons]
      exact (first.append (.refl _)).append ih

/-- A text that starts a line below another one. -/
theorem SameText.above {separator : String} (first : SameText extra a b)
    (feeds : ∀ start, startsLine start separator.toList = true) (second : SameText extra x y) :
    SameText extra (a ++ separator ++ x) (b ++ separator ++ y) := by
  unfold SameText at *
  rw [String.toList_append, String.toList_append, String.toList_append, String.toList_append,
    List.append_assoc, List.append_assoc]
  refine first.append ((Commented.refl _ _).append ?_)
  rw [feeds]
  exact second

/-- Texts that each start a line of their own. -/
theorem sameText_joinTexts {separator : String} (feeds : ∀ start, startsLine start separator.toList = true)
    {texts others : List String} (same : List.Forall₂ (SameText extra) texts others) :
    SameText extra (joinTexts separator texts) (joinTexts separator others) := by
  induction same with
  | nil => exact .refl _
  | @cons text other rest more first later ih =>
    cases later with
    | nil => simpa [joinTexts] using first
    | cons second later =>
      rw [joinTexts, joinTexts, String.intercalate_cons_cons, String.intercalate_cons_cons]
      exact first.above feeds ih

theorem Starts.filled {code : String} (starts : Starts code) : Filled code.toList := by
  obtain ⟨c, rest, shape, solid, _⟩ := starts
  rw [shape]
  refine ⟨?_, .inl solid⟩
  rintro rfl
  cases solid

theorem toString_text (text : String) : toString text = text := rfl

theorem starts_of_head? {c : Char} (first : a.toList.head? = some c) (solid : isBlank c = false)
    (apart : c ≠ '=') : Starts a := by
  obtain ⟨rest, shape⟩ := List.head?_eq_some_iff.mp first
  exact ⟨c, rest, shape, solid, apart⟩

theorem starts_joinTexts {separator : String} {texts : List String} (starts : Starts a) :
    Starts (joinTexts separator (a :: texts)) := by
  cases texts with
  | nil => simpa [joinTexts] using starts
  | cons next texts =>
    rw [joinTexts, String.intercalate_cons_cons]
    exact (starts.append _).append _

theorem startsLine_feed (start : Bool) (text : String) : startsLine start (text ++ "\n").toList = true := by
  rw [String.toList_append, startsLine_append]
  rfl

theorem not_isImport {definition : String} (other : ∀ c ∈ definition.toList.head?, c ≠ 'i' ∧ c ≠ '#') :
    isImport definition = false := by
  unfold isImport startsWithWord
  cases shape : definition.toList with
  | nil => rfl
  | cons c rest =>
    obtain ⟨first, second⟩ := other c (by rw [shape]; rfl)
    have word : ("import".toList).isPrefixOf (c :: rest) = false := by
      simp [List.isPrefixOf, Ne.symm first]
    have sign : ("#include".toList).isPrefixOf (c :: rest) = false := by
      simp [List.isPrefixOf, Ne.symm second]
    rw [word, sign]
    rfl

end Texts

namespace Template

/-- The template of blocks that read a variable, given how its identifier is found. -/
def readVariableBy (identifier : Site → Emission String) : Template := fun site => do
  expression (← identifier site) .atomic

/-- The template of blocks that set a variable, given how its identifier is found. -/
def setVariableBy (identifier : Site → Emission String) : Template := fun site => do
  let value ← site.value "VALUE" .assignment "0"
  let target ← identifier site
  statement s!"{target} = {value};\n"

/-- The template of blocks that change a variable, given how its identifier is found. -/
def changeBy (identifier : Site → Emission String) : Template := fun site => do
  let delta ← site.value "DELTA" .assignment "0"
  let target ← identifier site
  statement s!"{target} += {delta};\n"

theorem readVariableBy_getVariable : readVariableBy Site.getVariable = readVariable := rfl

theorem setVariableBy_getVariable : setVariableBy Site.getVariable = setVariable := rfl

theorem changeBy_getVariable : changeBy Site.getVariable = change := rfl

end Template

namespace Coupling

variable {c : Coupling} {site other : Site}

/-- What nothing follows has its comments above it. -/
theorem finish_alone {site : Site} (alone : site.below = pure (.statements "")) (code : String) :
    site.finish code = pure (site.comments ++ code) := by
  rw [Site.finish, alone, pure_bind]
  simp [Output.code]

/-- Comments above a code that is filled, where they are allowed. -/
theorem Sites.commented (sites : c.Sites site other) {code bare : String} (same : SameText c.extra code bare)
    (filled : Filled bare.toList) : SameText c.extra (site.comments ++ code) (other.comments ++ bare) := by
  obtain ⟨lines, shape, each⟩ := site.exists_commentLines
  rw [sites.comments]
  unfold SameText at *
  cases allowed : c.extra with
  | true =>
    rw [allowed] at same
    rw [if_pos rfl, String.empty_append, String.toList_append, shape]
    exact Commented.lines rfl each filled same
  | false =>
    rw [allowed] at same
    obtain rfl : code = bare := String.toList_inj.mp (Commented.eq same rfl)
    exact Commented.refl ..

/-- The code of statements with its comments and the code below it. -/
theorem Sites.finish (sites : c.Sites site other) {code bare : String} (same : SameText c.extra code bare)
    (filled : Filled bare.toList) (whole : startsLine true bare.toList) :
    c.Agree (SameText c.extra) (site.finish code) (other.finish bare) := by
  unfold Site.finish
  refine sites.below.bind ?_
  rintro _ _ ⟨later, bareLater, rfl, rfl, follows⟩
  refine agree_pure ?_
  have above := sites.commented same filled
  unfold SameText at *
  show Commented c.extra true (site.comments ++ code ++ later).toList
    (other.comments ++ bare ++ bareLater).toList
  rw [@String.toList_append _ later, @String.toList_append _ bareLater]
  refine above.append ?_
  have feeds : startsLine true (other.comments ++ bare).toList = true := by
    rw [String.toList_append, startsLine_append]
    cases start : startsLine true other.comments.toList with
    | true => exact whole
    | false =>
      cases shape : bare.toList with
      | nil =>
        rw [shape] at filled
        exact filled.elim
      | cons d rest =>
        rw [shape] at whole
        exact whole
  rw [feeds]
  exact follows

theorem Sites.itemCount (sites : c.Sites site other) :
    itemCount other.head.mutation = itemCount site.head.mutation := by
  unfold BlockCompiler.itemCount
  rw [sites.alike.mutation]

theorem Sites.parameters (sites : c.Sites site other) :
    parameters other.head.mutation = parameters site.head.mutation := by
  unfold BlockCompiler.parameters
  rw [sites.alike.mutation]

section Values

variable {told : Bool} (sites : c.Sites site other) (plain : told = false)

include plain in
theorem agree_expression (code : String) (order : Order) :
    c.Agree (c.Gives told) (expression code order) (expression code order) :=
  agree_pure (.value code order plain)

include plain in
theorem agree_numberLiteral (number : Number) :
    c.Agree (c.Gives told) (numberLiteral number) (numberLiteral number) := by
  have whole : ∀ value : Int, c.Agree (c.Gives told) (wholeLiteral value) (wholeLiteral value) := by
    intro value
    unfold wholeLiteral
    refine (agree_ofNumeral _).bind ?_
    rintro text _ rfl
    exact agree_expression plain _ _
  cases number with
  | int value => exact whole value
  | float value =>
    unfold numberLiteral
    split
    · exact whole _
    · refine (agree_includeHeader "cmath").bind fun _ _ _ => ?_
      split_ifs
      · exact agree_expression plain _ _
      · exact agree_expression plain _ _
    · split
      · exact whole _
      · exact agree_expression plain _ _

include sites plain

theorem agree_number : c.Agree (c.Gives told) (Template.number site) (Template.number other) := by
  unfold Template.number
  simp only [sites.field]
  refine (agree_ofNumeral _).bind ?_
  rintro number _ rfl
  exact agree_numberLiteral plain number

theorem agree_arithmetic : c.Agree (c.Gives told) (Template.arithmetic site) (Template.arithmetic other) := by
  unfold Template.arithmetic
  rw [sites.field]
  split_ifs
  · refine (agree_includeHeader "cmath").bind fun _ _ _ => ?_
    refine (sites.value "A" .none "0").bind ?_
    rintro a _ rfl
    refine (sites.value "B" .none "0").bind ?_
    rintro b _ rfl
    exact agree_expression plain _ _
  · refine (agree_choose _ _).bind ?_
    rintro ⟨operator, order⟩ _ rfl
    refine (sites.value "A" order "0").bind ?_
    rintro a _ rfl
    refine (sites.value "B" order "0").bind ?_
    rintro b _ rfl
    exact agree_expression plain _ _

theorem agree_single : c.Agree (c.Gives told) (Template.single site) (Template.single other) := by
  unfold Template.single
  rw [sites.field]
  split_ifs
  · refine (sites.value "NUM" .unaryPrefix "0").bind ?_
    rintro operand _ rfl
    exact agree_expression plain _ _
  · refine (agree_includeHeader "cmath").bind fun _ _ _ => ?_
    refine (sites.value "NUM" .none "0").bind ?_
    rintro operand _ rfl
    refine (agree_choose _ _).bind ?_
    rintro function _ rfl
    exact agree_expression plain _ _

theorem agree_randomInt : c.Agree (c.Gives told) (Template.randomInt site) (Template.randomInt other) := by
  unfold Template.randomInt
  refine (agree_includeHeader "cstdlib").bind fun _ _ _ => ?_
  refine (sites.value "FROM" .none "0").bind ?_
  rintro low _ rfl
  refine (sites.value "TO" .none "0").bind ?_
  rintro high _ rfl
  refine (agree_provideFunction _).bind ?_
  rintro function _ rfl
  exact agree_expression plain _ _

theorem agree_boolean : c.Agree (c.Gives told) (Template.boolean site) (Template.boolean other) := by
  unfold Template.boolean
  rw [sites.field]
  exact agree_expression plain _ _

theorem agree_compare : c.Agree (c.Gives told) (Template.compare site) (Template.compare other) := by
  unfold Template.compare
  rw [sites.field]
  dsimp only
  refine (sites.value "A" _ "0").bind ?_
  rintro a _ rfl
  refine (sites.value "B" _ "0").bind ?_
  rintro b _ rfl
  refine (agree_choose _ _).bind ?_
  rintro operator _ rfl
  exact agree_expression plain _ _

theorem agree_operation : c.Agree (c.Gives told) (Template.operation site) (Template.operation other) := by
  unfold Template.operation
  rw [sites.field]
  dsimp only
  refine (sites.value "A" _ "").bind ?_
  rintro a _ rfl
  refine (sites.value "B" _ "").bind ?_
  rintro b _ rfl
  exact agree_expression plain _ _

theorem agree_negate : c.Agree (c.Gives told) (Template.negate site) (Template.negate other) := by
  unfold Template.negate
  refine (sites.value "BOOL" .unaryPrefix "true").bind ?_
  rintro operand _ rfl
  exact agree_expression plain _ _

theorem agree_ternary : c.Agree (c.Gives told) (Template.ternary site) (Template.ternary other) := by
  unfold Template.ternary
  refine (sites.value "IF" .conditional "false").bind ?_
  rintro condition _ rfl
  refine (sites.value "THEN" .conditional "0").bind ?_
  rintro yes _ rfl
  refine (sites.value "ELSE" .conditional "0").bind ?_
  rintro no _ rfl
  exact agree_expression plain _ _

theorem agree_text : c.Agree (c.Gives told) (Template.text site) (Template.text other) := by
  unfold Template.text
  rw [sites.field]
  dsimp only
  refine (agree_textOf _).bind ?_
  rintro text _ rfl
  exact agree_expression plain _ _

theorem agree_join : c.Agree (c.Gives told) (Template.join site) (Template.join other) := by
  unfold Template.join
  rw [sites.itemCount]
  refine (agree_ofCount _).bind ?_
  rintro count _ rfl
  split_ifs
  · exact agree_expression plain _ _
  · refine (sites.values "ADD" count.toNat .additive "''").bind ?_
    rintro codes _ rfl
    exact agree_expression plain _ _

theorem agree_createList : c.Agree (c.Gives told) (Template.createList site) (Template.createList other) := by
  unfold Template.createList
  rw [sites.itemCount]
  refine (agree_ofCount _).bind ?_
  rintro count _ rfl
  refine (sites.values "ADD" count.toNat .none "0").bind ?_
  rintro items _ rfl
  exact agree_expression plain _ _

omit sites in
theorem agree_readVariableBy {found foundOther : Site → Emission String}
    (agree : c.Agree (fun a b => a = b ∧ IsName a.toList) (found site) (foundOther other)) :
    c.Agree (c.Gives told) (Template.readVariableBy found site)
    (Template.readVariableBy foundOther other) := by
  unfold Template.readVariableBy
  refine agree.bind ?_
  rintro name _ ⟨rfl, _⟩
  exact agree_expression plain _ _

theorem agree_getIndex (alike : c.counts = id) :
    c.Agree (c.Gives told) (Template.getIndex site) (Template.getIndex other) := by
  unfold Template.getIndex
  rw [sites.field]
  dsimp only
  refine (sites.value "VALUE" .unaryPostfix "\x7b\x7d").bind ?_
  rintro items _ rfl
  split_ifs
  · exact agree_expression plain _ _
  · exact agree_expression plain _ _
  · refine (sites.adjusted alike "AT" 1 false .additive).bind ?_
    rintro index _ rfl
    exact agree_expression plain _ _
  · refine (sites.adjusted alike "AT" 0 false .none).bind ?_
    rintro index _ rfl
    exact agree_expression plain _ _

end Values

section Statements

variable {told : Bool} (sites : c.Sites site other) (statement : told = true)

include sites in
/-- An arm of a branch is the same up to comments inside. -/
theorem Sites.arm (i : Nat) :
    c.Agree (fun code bare => SameWithin c.extra code bare ∧ Starts bare) (Template.arm site i)
    (Template.arm other i) := by
  unfold Template.arm
  refine (sites.value s!"IF{i}" .none "false").bind ?_
  rintro condition _ rfl
  refine (sites.statements s!"DO{i}").bind fun body bare same => agree_pure ?_
  exact ⟨same.braced _, @starts_of_head? _ 'i' (by simp [braced, toString_text]) (by decide) (by decide)⟩

include statement in
/-- A line of code that is the same at both sites. -/
theorem agree_line {lead : String} (starts : Starts lead) (rest : String) :
    c.Agree (c.Gives told) (BlockCompiler.statement (lead ++ (rest ++ "\n")))
    (BlockCompiler.statement (lead ++ (rest ++ "\n"))) := by
  refine agree_pure (.statements statement (.refl _) (starts.append _).filled ?_)
  rw [← String.append_assoc]
  exact startsLine_feed _ _

include statement in
/-- Lines that are the same up to comments inside. -/
theorem gives_lines {code bare : String} (same : SameWithin c.extra code bare) (starts : Starts bare) :
    c.Gives told (some (.statements (code ++ "\n"))) (some (.statements (bare ++ "\n"))) :=
  .statements statement ((same.append (.refl "\n")) true) (starts.append _).filled (startsLine_feed _ _)

include sites statement

theorem agree_print : c.Agree (c.Gives told) (Template.print site) (Template.print other) := by
  unfold Template.print
  refine (agree_includeHeader "iostream").bind fun _ _ _ => ?_
  refine (sites.value "TEXT" .shift "''").bind ?_
  rintro message _ rfl
  have shape : s!"std::cout << {message} << std::endl;\n" =
      "std::cout << " ++ ((message ++ " << std::endl;") ++ "\n") := by
    show "std::cout << " ++ message ++ (" << std::endl;" ++ "\n") = _
    simp only [String.append_assoc]
  rw [shape]
  exact agree_line statement ⟨'s', _, rfl, by decide, by decide⟩ _

theorem agree_setVariableBy {found foundOther : Site → Emission String}
    (agree : c.Agree (fun a b => a = b ∧ IsName a.toList) (found site) (foundOther other)) :
    c.Agree (c.Gives told) (Template.setVariableBy found site) (Template.setVariableBy foundOther other) := by
  unfold Template.setVariableBy
  refine (sites.value "VALUE" .assignment "0").bind ?_
  rintro value _ rfl
  refine agree.bind ?_
  rintro target _ ⟨rfl, isName⟩
  have shape : s!"{target} = {value};\n" = target ++ ((" = " ++ value ++ ";") ++ "\n") := by
    show target ++ " = " ++ value ++ (";" ++ "\n") = _
    simp only [String.append_assoc]
  rw [shape]
  exact agree_line statement (starts_word isName) _

theorem agree_changeBy {found foundOther : Site → Emission String}
    (agree : c.Agree (fun a b => a = b ∧ IsName a.toList) (found site) (foundOther other)) :
    c.Agree (c.Gives told) (Template.changeBy found site) (Template.changeBy foundOther other) := by
  unfold Template.changeBy
  refine (sites.value "DELTA" .assignment "0").bind ?_
  rintro delta _ rfl
  refine agree.bind ?_
  rintro target _ ⟨rfl, isName⟩
  have shape : s!"{target} += {delta};\n" = target ++ ((" += " ++ delta ++ ";") ++ "\n") := by
    show target ++ " += " ++ delta ++ (";" ++ "\n") = _
    simp only [String.append_assoc]
  rw [shape]
  exact agree_line statement (starts_word isName) _

theorem agree_callProcedure :
    c.Agree (c.Gives told) (Template.callProcedure site) (Template.callProcedure other) := by
  unfold Template.callProcedure
  rw [sites.field, sites.parameters]
  refine (agree_textOf _).bind ?_
  rintro wanted _ rfl
  refine (agree_getName wanted .procedure).bind ?_
  rintro name _ ⟨rfl, isName⟩
  refine (agree_ofCount _).bind ?_
  rintro params _ rfl
  refine (sites.values "ARG" params.length .none "0").bind ?_
  rintro arguments _ rfl
  have shape : ∀ arguments : String,
      s!"{name}({arguments});\n" = name ++ (("(" ++ arguments ++ ");") ++ "\n") := by
    intro arguments
    show name ++ "(" ++ arguments ++ (");" ++ "\n") = _
    simp only [String.append_assoc]
  dsimp only
  rw [shape]
  exact agree_line statement (starts_word isName) _

theorem agree_whileUntil : c.Agree (c.Gives told) (Template.whileUntil site) (Template.whileUntil other) := by
  unfold Template.whileUntil
  rw [sites.field]
  dsimp only
  refine (sites.value "BOOL" _ "false").bind ?_
  rintro test _ rfl
  refine (sites.statements "DO").bind fun body bare same => agree_pure ?_
  exact gives_lines statement (same.braced _)
    (@starts_of_head? _ 'w' (by simp [braced, toString_text]) (by decide) (by decide))

theorem agree_repeatTimes :
    c.Agree (c.Gives told) (Template.repeatTimes site) (Template.repeatTimes other) := by
  unfold Template.repeatTimes
  refine (sites.value "TIMES" .assignment "0").bind ?_
  rintro times _ rfl
  refine (sites.statements "DO").bind fun body bare same => ?_
  refine (agree_distinctName "count" .variable).bind ?_
  rintro counter _ rfl
  split_ifs
  · refine agree_pure
      (gives_lines statement (same.braced _)
      (@starts_of_head? _ 'f' (by simp [braced, toString_text]) (by decide) (by decide)))
  · refine (agree_distinctName "repeat_end" .variable).bind ?_
    rintro bound _ rfl
    have shape : ∀ inner : String, s!"int {bound} = {times};\n" ++ Template.countingLoop counter bound inner =
        s!"int {bound} = {times};\n" ++ braced s!"for (int {counter} = 0; {counter} < {bound}; {counter}++)"
          inner ++ "\n" :=
      fun inner => (String.append_assoc ..).symm
    rw [shape, shape]
    refine agree_pure (gives_lines statement (SameWithin.append (.refl _) (same.braced _)) ?_)
    exact @starts_of_head? _ 'i' (by simp [toString_text]) (by decide) (by decide)

theorem agree_branch : c.Agree (c.Gives told) (Template.branch site) (Template.branch other) := by
  unfold Template.branch
  rw [sites.armsOf, sites.socket?_isSome]
  generalize arms_eq : Template.armsOf site = arms
  obtain ⟨more, rfl⟩ : ∃ more, arms = 0 :: more := ⟨_, arms_eq.symm⟩
  have numbers : List.Forall₂ (fun i j : Nat => i = j) more more := List.forall₂_refl _
  have later : c.Agree (List.Forall₂ fun code bare => SameWithin c.extra code bare ∧ Starts bare)
      (more.mapM (Template.arm site)) (more.mapM (Template.arm other)) :=
    agree_mapM numbers fun i _ same => same ▸ sites.arm i
  rw [List.mapM_cons, List.mapM_cons, bind_assoc, bind_assoc]
  refine (sites.arm 0).bind fun first bareFirst here => ?_
  rw [bind_assoc, bind_assoc]
  refine later.bind fun arms bareArms each => ?_
  rw [pure_bind, pure_bind]
  have joined : SameWithin c.extra (joinTexts " else " (first :: arms))
      (joinTexts " else " (bareFirst :: bareArms)) :=
    sameWithin_joinTexts (.cons here.1 (each.imp fun _ _ both => both.1))
  have starts : Starts (joinTexts " else " (bareFirst :: bareArms)) := starts_joinTexts here.2
  by_cases otherwise : (site.socket? "ELSE").isSome
  · simp only [if_pos otherwise, pure_bind]
    refine (sites.statements "ELSE").bind fun body bare same => agree_pure ?_
    refine gives_lines statement (joined.append ?_) (starts.append _)
    have last : SameWithin c.extra (" else" ++ braced "" body) (" else" ++ braced "" bare) :=
      SameWithin.append (.refl _) (same.braced "")
    simpa [String.join_cons] using last
  · simp only [if_neg otherwise, pure_bind]
    refine agree_pure (gives_lines statement (joined.append ?_) (starts.append _))
    exact .refl _

end Statements

section Procedures

theorem not_isImport_comments (site : Site) {code : String} (starts : code.toList.head? = some 'v') :
    isImport (site.comments ++ code) = false := by
  refine not_isImport fun c first => ?_
  obtain ⟨lines, shape, each⟩ := site.exists_commentLines
  rw [String.toList_append, shape] at first
  cases lines with
  | nil =>
    rw [show unlines [] ++ code.toList = code.toList from rfl, starts] at first
    cases first
    decide
  | cons line rest =>
    obtain ⟨n, words, rfl⟩ := isCommentLine_iff.mp (each line (List.mem_cons_self ..)).1
    cases n <;>
    · simp [unlines, List.replicate_succ] at first
      subst first
      decide

variable {told : Bool} (sites : c.Sites site other)

theorem agree_parameterNames (sites : c.Sites site other) :
    c.Agree (fun a b => a = b) (Template.parameterNames site) (Template.parameterNames other) := by
  unfold Template.parameterNames
  rw [sites.parameters]
  refine (agree_ofCount _).bind ?_
  rintro params _ rfl
  have same : List.Forall₂ (fun a b : Json => a = b) params params := List.forall₂_refl _
  have each : c.Agree (List.Forall₂ fun a b : String => a = b)
      (params.mapM fun param => do Emission.getName (← Emission.textOf param) .variable)
      (params.mapM fun param => do Emission.getName (← Emission.textOf param) .variable) := by
    refine agree_mapM same ?_
    rintro param _ rfl
    refine (agree_textOf param).bind ?_
    rintro name _ rfl
    exact (agree_getName name .variable).imp fun _ _ both => both.1
  exact each.imp fun _ _ same => List.forall₂_eq_eq_eq ▸ same

theorem agree_defineProcedure (sites : c.Sites site other) (plain : told = false)
    (alone : site.head.isStatement = false) :
    c.Agree (c.Gives told) (Template.defineProcedure site) (Template.defineProcedure other) := by
  unfold Template.defineProcedure
  rw [sites.field]
  refine (agree_textOf _).bind ?_
  rintro wanted _ rfl
  refine (agree_getName wanted .procedure).bind ?_
  rintro name _ ⟨rfl, _⟩
  refine (agree_parameterNames sites).bind ?_
  rintro params _ rfl
  refine (sites.statements "STACK").bind fun body bare same => ?_
  obtain ⟨here, there⟩ := sites.alone alone
  dsimp only
  generalize joinTexts ", " params = row
  rw [finish_alone here, finish_alone there, pure_bind, pure_bind]
  have first : ∀ body, (braced s!"void {name}({row})" body).toList.head? = some 'v' := by
    intro body
    simp [braced, toString_text]
  have starts := starts_of_head? (first bare) (by decide) (by decide)
  have apart : ∀ word : String, word.toList.head? ≠ some '%' → "%" ++ name ≠ word := by
    rintro word differs rfl
    exact differs (by simp)
  have imports : isImport (other.comments ++ braced s!"void {name}({row})" bare) =
      isImport (site.comments ++ braced s!"void {name}({row})" body) := by
    rw [not_isImport_comments other (first bare), not_isImport_comments site (first body)]
  refine (agree_define (apart _ (by decide)) (apart _ (by decide))
    (sites.commented (same.braced _ true) starts.filled) imports).bind ?_
  exact fun _ _ _ => agree_pure (.none plain)

end Procedures

/-- Two lines that stand for blocks of unknown types are the same up to comments. -/
theorem sameText_placeholder {extra : Bool} {type other : String} (allowed : extra = true)
    (oneLine : '\n' ∉ type.toList) (oneLineOther : '\n' ∉ other.toList) :
    SameText extra s!"// TODO: no template for block type '{type}'\n"
    s!"// TODO: no template for block type '{other}'\n" := by
  have shape : ∀ type : String, (s!"// TODO: no template for block type '{type}'\n").toList =
      ("// TODO: no template for block type '".toList ++ (type.toList ++ ['\''])) ++ ['\n'] := by
    intro type
    simp [toString_text]
  have remark : ∀ type : String, '\n' ∉ type.toList →
      IsRemark ("// TODO: no template for block type '".toList ++ (type.toList ++ ['\''])) :=
    fun type oneLine => ⟨isCommentLine_append (by decide) _,
      List.not_mem_append (by decide) (List.not_mem_append oneLine (by decide)),
      '\'', by rw [List.getLast?_append, List.getLast?_append]; rfl, by decide, by decide⟩
  unfold SameText
  rw [shape, shape]
  exact .swap allowed (remark type oneLine) (remark other oneLineOther) (.refl ..)

/-- What stands in for a block of an unknown type. -/
theorem agree_placeholders (sites : c.Sites site other) (unknown : BlockKind.ofName? site.head.type = none) :
    c.Agree (c.Gives site.head.isStatement) (Template.placeholder site) (Template.placeholder other) := by
  unfold Template.placeholder
  rw [sites.alike.hasOutput]
  have statement : site.head.isStatement = !site.head.hasOutput := by
    rw [BlockHead.isStatement, unknown]
  split_ifs with output
  · exact agree_pure (.value _ _ (by rw [statement, output]; rfl))
  · refine agree_pure (.statements (by rw [statement]; simpa using output) ?_ ?_ ?_)
    · rcases sites.alike.type with same | ⟨allowed, _, here, there⟩
      · rw [same]
        exact .refl _
      · exact sameText_placeholder allowed here.2 there.2
    · have starts := @starts_of_head? s!"// TODO: no template for block type '{other.head.type}'\n" '/'
        (by simp [toString_text])
        (by decide) (by decide)
      exact starts.filled
    · have shape : s!"// TODO: no template for block type '{other.head.type}'\n" =
          "// TODO: no template for block type '" ++ other.head.type ++ "'" ++ "\n" := by
        show "// TODO: no template for block type '" ++ other.head.type ++ ("'" ++ "\n") = _
        simp only [String.append_assoc]
      rw [shape]
      exact startsLine_feed _ _

/-- The template of a kind gives the same at both sites. -/
theorem agree_template {kind : BlockKind} (sites : c.Sites site other)
    (named : BlockKind.ofName? site.head.type = some kind) :
    c.Agree (c.Gives site.head.isStatement) (kind.template site) (kind.template other) := by
  have form : site.head.isStatement = decide (kind.shape.plug = .statement) := by
    rw [BlockHead.isStatement, named]
  cases kind with
  | number => exact agree_number sites form
  | arithmetic => exact agree_arithmetic sites form
  | single => exact agree_single sites form
  | change => exact agree_changeBy sites form sites.getVariable
  | randomInt => exact agree_randomInt sites form
  | boolean => exact agree_boolean sites form
  | compare => exact agree_compare sites form
  | operation => exact agree_operation sites form
  | negate => exact agree_negate sites form
  | ternary => exact agree_ternary sites form
  | text => exact agree_text sites form
  | join => exact agree_join sites form
  | print => exact agree_print sites form
  | readVariable => exact agree_readVariableBy form sites.getVariable
  | setVariable => exact agree_setVariableBy sites form sites.getVariable
  | branch => exact agree_branch sites form
  | repeatTimes => exact agree_repeatTimes sites form
  | whileUntil => exact agree_whileUntil sites form
  | createList => exact agree_createList sites form
  | getIndex => exact agree_getIndex sites form ((c.unread sites.heads).resolve_right (by simp [named]))
  | defineProcedure => exact agree_defineProcedure sites form form
  | callProcedure => exact agree_callProcedure sites form

end Coupling

end BlockCompiler

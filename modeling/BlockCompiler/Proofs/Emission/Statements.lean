import BlockCompiler.Proofs.Emission.Listing

/-!
The templates of statements: each gives lines for the statements that its block stands for.
-/

namespace BlockCompiler

/-- What a template of statements gives lists some statements. -/
def Tells (known : Bool) (s : Pass) (leaves : List Leaf) (output : Option Output) : Prop :=
  ∃ text, output = some (.statements text) ∧ Lists known s leaves text

/-- A site gives the lines of the statements in the opening of a name, further in. -/
def Site.OpensAt (known : Bool) (tight : Prop) (site : Site) (name : String) (leaves : List Leaf) : Prop :=
  ∀ s, Emits tight (site.statements name) s fun text t => Lists known t leaves text

section Statements

variable {known : Bool} {tight : Prop} {site : Site} {rows : Rows BlockHead RowHead} {s : Pass}

theorem Writes.isReadAs {code : String} {order : Order} {e : Expr} (writes : Writes code order e) :
    IsReadAs code e := by
  obtain ⟨f, parsed, alike, _⟩ := @Writes.parses code "" order e writes (by simpa using leads_nil)
  exact ⟨f, by simpa using parsed, alike⟩

theorem Fills.reads {typed : Prop} {order : Order} {meant : Pass → Expr} {text : String}
    (fills : Fills typed order meant text s) (isTyped : typed) :
    OneLine text ∧ ∀ t, s.Grows t → IsReadAs text (meant t) := by
  obtain ⟨e, inner, writes, _, same⟩ := fills
  refine ⟨writes.oneLine, fun t later => ?_⟩
  rw [same isTyped t later]
  exact writes.isReadAs

/-- The identifier of the variable of a block. -/
theorem emits_getVariable {kind : BlockKind} (valid : site.head.Valid tight kind)
    (own : "VAR" ∈ kind.shape.fields.keys) :
    Emits tight site.getVariable s fun text t =>
      IsName text.toList ∧ ∀ u, t.Grows u → u.variable (site.head.field "VAR").word = text := by
  obtain ⟨name, field⟩ := valid.variable_text own
  have found : site.field "VAR" = .text name := field
  unfold Site.getVariable
  rw [found]
  refine Emission.emits_textOf.bind ?_
  rintro _ t _ ⟨rfl, rfl⟩
  refine (Emission.emits_getName _ .variable).imp ?_
  rintro text t _ ⟨isName, assigned⟩
  refine ⟨isName, fun u later => ?_⟩
  simp only [field, Pass.variable, Json.word, Json.asText?, Option.getD_some, later.names _ _ assigned]

theorem prefix_of_words {word name more rest : List Char} {c d : Char}
    (inWord : ∀ x ∈ word, isIdentifierChar x) (inName : ∀ x ∈ name, isIdentifierChar x)
    (out : isIdentifierChar c = false) (outOther : isIdentifierChar d = false)
    (leads : word ++ c :: more <+: name ++ d :: rest) : word = name ∧ c = d ∧ more <+: rest := by
  induction word generalizing name with
  | nil =>
    cases name with
    | nil =>
      obtain ⟨same, later⟩ := List.cons_prefix_cons.mp leads
      exact ⟨rfl, same, later⟩
    | cons x name =>
      obtain ⟨rfl, _⟩ := List.cons_prefix_cons.mp leads
      rw [inName c (List.mem_cons_self ..)] at out
      cases out
  | cons y word ih =>
    cases name with
    | nil =>
      obtain ⟨rfl, _⟩ := List.cons_prefix_cons.mp leads
      rw [inWord y (List.mem_cons_self ..)] at outOther
      cases outOther
    | cons x name =>
      obtain ⟨rfl, later⟩ := List.cons_prefix_cons.mp leads
      obtain ⟨rfl, same, after⟩ := ih (fun x member => inWord x (List.mem_cons_of_mem _ member))
        (fun x member => inName x (List.mem_cons_of_mem _ member)) later
      exact ⟨rfl, same, after⟩

/-- A line that starts with a word is no frame, if what comes after the word is no bracket behind a blank and
no other word. -/
theorem isFrame_word {name rest : List Char} {d : Char} (isName : IsName name)
    (out : isIdentifierChar d = false)
    (apart : d = ' ' → ∃ c later, rest = c :: later ∧ c ≠ '(' ∧ isIdentifierChar c = false) :
    isFrame (name ++ d :: rest) = false := by
  obtain ⟨filled, inName, _⟩ := isName
  have headed : ∀ {c : Char} {lead : List Char}, isIdentifierChar c = false →
      (c :: lead).isPrefixOf (name ++ d :: rest) = false := by
    intro c lead outside
    cases name with
    | nil => exact absurd rfl filled
    | cons x name =>
      have differs : (c == x) = false := beq_false_of_ne fun same => by
        rw [same, inName x (List.mem_cons_self ..)] at outside
        cases outside
      simp [List.isPrefixOf, differs]
  have bracket : ∀ word : List Char, IsName word →
      (word ++ [' ', '(']).isPrefixOf (name ++ d :: rest) = false := by
    intro word isWord
    by_contra leads
    have leads : word ++ ' ' :: ['('] <+: name ++ d :: rest :=
      List.isPrefixOf_iff_prefix.mp (by simpa using leads)
    obtain ⟨_, blank, after⟩ := prefix_of_words isWord.2.1 inName (by decide) out leads
    obtain ⟨c, later, rfl, differs, _⟩ := apart blank.symm
    exact differs (List.cons_prefix_cons.mp after).1.symm
  have count : ("int ".toList.isPrefixOf (name ++ d :: rest) &&
      ((name ++ d :: rest).drop 4).head?.any isIdentifierChar) = false := by
    by_contra both
    rw [Bool.not_eq_false, Bool.and_eq_true] at both
    have leads : ['i', 'n', 't'] ++ ' ' :: [] <+: name ++ d :: rest := List.isPrefixOf_iff_prefix.mp both.1
    have isWord : IsName ['i', 'n', 't'] := by decide
    obtain ⟨rfl, blank, _⟩ := prefix_of_words isWord.2.1 inName (by decide) out leads
    obtain ⟨c, later, rfl, _, outside⟩ := apart blank.symm
    have word := both.2
    simp [outside] at word
  have slash := @headed '/' ['/'] (by decide)
  have brace := @headed '\x7d' [] (by decide)
  have branch := bracket "if".toList (by decide)
  have counting := bracket "for".toList (by decide)
  have testing := bracket "while".toList (by decide)
  unfold isFrame
  rw [show "//".toList = ['/', '/'] from rfl, slash, show "\x7d".toList = ['\x7d'] from rfl, brace,
    show "if (".toList = "if".toList ++ [' ', '('] from rfl, branch,
    show "for (".toList = "for".toList ++ [' ', '('] from rfl, counting,
    show "while (".toList = "while".toList ++ [' ', '('] from rfl, testing, count]
  rfl

theorem head?_word {name rest : List Char} (isName : IsName name) : (name ++ rest).head? ≠ some ' ' := by
  obtain ⟨filled, inName, _⟩ := isName
  cases name with
  | nil => exact absurd rfl filled
  | cons c name =>
    rintro ⟨⟩
    exact absurd (inName ' ' (List.mem_cons_self ..)) (by decide)

variable {numeric : Prop} {typed : Prop}

theorem emits_print (named : BlockKind.ofName? site.head.type = some .print) (isTyped : typed)
    (offers : site.OffersAt tight typed numeric "TEXT" (rows.operand? · "TEXT")) :
    Emits tight (Template.print site) s fun output t => Tells known t [⟨site.head, rows⟩] output := by
  unfold Template.print
  refine Emission.emits_includeHeader.bind fun _ _ _ _ => ?_
  refine (offers.fills (isLiteral_quoted "") .shift).bind ?_
  intro code t _ fills
  obtain ⟨oneLine, isRead⟩ := fills.reads isTyped
  refine emits_pure ⟨_, rfl, ?_⟩
  have text : s!"std::cout << {code} << std::endl;\n" =
      ("std::cout << " ++ code ++ " << std::endl;") ++ "\n" := by
    show "std::cout << " ++ code ++ (" << std::endl;" ++ "\n") = _
    rw [← String.append_assoc]
  have isName : IsName "std".toList := by decide
  have shape : ("std::cout << " ++ code ++ " << std::endl;").toList =
      "std".toList ++ ':' :: (":cout << " ++ code ++ " << std::endl;").toList := by simp
  rw [text]
  refine lists_leaf ?_ ?_ ?_ fun u later => ?_
  · simp only [oneLine_append]
    exact ⟨⟨by decide, oneLine⟩, by decide⟩
  · rw [shape]
    exact isFrame_word isName (by decide) fun same => absurd same (by decide)
  · rw [shape]
    exact head?_word isName
  · simp only [Leaf.IsLine, named]
    exact ⟨code, rfl, isRead u later⟩

theorem emits_setVariable (named : BlockKind.ofName? site.head.type = some .setVariable)
    (valid : site.head.Valid tight .setVariable) (isTyped : typed)
    (offers : site.OffersAt tight typed numeric "VALUE" (rows.operand? · "VALUE")) :
    Emits tight (Template.setVariable site) s fun output t => Tells known t [⟨site.head, rows⟩] output := by
  unfold Template.setVariable
  refine (offers.fills isLiteral_zero .assignment).bind ?_
  intro code t _ fills
  obtain ⟨oneLine, isRead⟩ := fills.reads isTyped
  refine (emits_getVariable valid (by decide)).bind ?_
  rintro target u grows ⟨isName, isTarget⟩
  refine emits_pure ⟨_, rfl, ?_⟩
  have text : s!"{target} = {code};\n" = (target ++ " = " ++ code ++ ";") ++ "\n" := by
    show target ++ " = " ++ code ++ (";" ++ "\n") = _
    rw [← String.append_assoc]
  have shape : (target ++ " = " ++ code ++ ";").toList =
      target.toList ++ ' ' :: ('=' :: ' ' :: (code ++ ";").toList) := by simp
  rw [text]
  refine lists_leaf ?_ ?_ ?_ fun v later => ?_
  · simp only [oneLine_append]
    exact ⟨⟨⟨oneLine_word isName, by decide⟩, oneLine⟩, by decide⟩
  · rw [shape]
    exact isFrame_word isName (by decide) fun _ => ⟨'=', _, rfl, by decide, by decide⟩
  · rw [shape]
    exact head?_word isName
  · simp only [Leaf.IsLine, named]
    exact ⟨code, by rw [isTarget v later], isRead v (grows.trans later)⟩

theorem emits_change (named : BlockKind.ofName? site.head.type = some .change)
    (valid : site.head.Valid tight .change) (isTyped : typed)
    (offers : site.OffersAt tight typed numeric "DELTA" (rows.operand? · "DELTA")) :
    Emits tight (Template.change site) s fun output t => Tells known t [⟨site.head, rows⟩] output := by
  unfold Template.change
  refine (offers.fills isLiteral_zero .assignment).bind ?_
  intro code t _ fills
  obtain ⟨oneLine, isRead⟩ := fills.reads isTyped
  refine (emits_getVariable valid (by decide)).bind ?_
  rintro target u grows ⟨isName, isTarget⟩
  refine emits_pure ⟨_, rfl, ?_⟩
  have text : s!"{target} += {code};\n" = (target ++ " += " ++ code ++ ";") ++ "\n" := by
    show target ++ " += " ++ code ++ (";" ++ "\n") = _
    rw [← String.append_assoc]
  have shape : (target ++ " += " ++ code ++ ";").toList =
      target.toList ++ ' ' :: ('+' :: '=' :: ' ' :: (code ++ ";").toList) := by
    simp
  rw [text]
  refine lists_leaf ?_ ?_ ?_ fun v later => ?_
  · simp only [oneLine_append]
    exact ⟨⟨⟨oneLine_word isName, by decide⟩, oneLine⟩, by decide⟩
  · rw [shape]
    exact isFrame_word isName (by decide) fun _ => ⟨'+', _, rfl, by decide, by decide⟩
  · rw [shape]
    exact head?_word isName
  · simp only [Leaf.IsLine, named]
    exact ⟨code, by rw [isTarget v later], isRead v (grows.trans later)⟩

/-- The identifier of the procedure of a block. -/
theorem emits_procedure {kind : BlockKind} (valid : site.head.Valid tight kind)
    (own : "NAME" ∈ kind.shape.fields.keys) :
    Emits tight (Emission.textOf (site.field "NAME") >>= fun name => Emission.getName name .procedure)
    s fun text t =>
      IsName text.toList ∧ ∀ u, t.Grows u → u.procedure (site.head.field "NAME").word = text := by
  obtain ⟨name, field⟩ := valid.name_text own
  have found : site.field "NAME" = .text name := field
  rw [found]
  refine Emission.emits_textOf.bind ?_
  rintro _ t _ ⟨rfl, rfl⟩
  refine (Emission.emits_getName _ .procedure).imp ?_
  rintro text t _ ⟨isName, assigned⟩
  refine ⟨isName, fun u later => ?_⟩
  simp only [field, Pass.procedure, Json.word, Json.asText?, Option.getD_some, later.names _ _ assigned]

theorem emits_callProcedure (named : BlockKind.ofName? site.head.type = some .callProcedure)
    (valid : site.head.Valid tight .callProcedure) (isTyped : typed)
    (offers : ∀ i : Nat, ∃ numeric : Prop, site.OffersAt tight typed numeric ("ARG" ++ toString i)
      (rows.operand? · ("ARG" ++ toString i))) :
    Emits tight (Template.callProcedure site) s fun output t => Tells known t [⟨site.head, rows⟩] output := by
  obtain ⟨params, found⟩ := valid.params
  unfold Template.callProcedure
  rw [← bind_assoc]
  refine (emits_procedure valid (by decide)).bind ?_
  rintro name t _ ⟨isName, isProcedure⟩
  refine (Emission.emits_ofCount found).bind ?_
  rintro _ u _ ⟨rfl, rfl⟩
  have values := @emits_values tight typed site (fun pass => rows.operand? pass) u "ARG" offers "0"
    _ isLiteral_zero
  refine (values _ .none).bind ?_
  rintro codes u grows ⟨es, each, length, meant⟩
  refine emits_pure ⟨_, rfl, ?_⟩
  have all : List.Forall₂ IsReadAs codes es := each.imp fun _ _ ⟨_, writes, _⟩ => writes.isReadAs
  have oneLines : OneLine (joinTexts ", " codes) := by
    refine oneLine_joinTexts (by decide) ?_
    clear all meant length
    induction each with
    | nil => simp
    | cons first _ ih =>
      obtain ⟨_, writes, _⟩ := first
      exact List.forall_mem_cons.mpr ⟨writes.oneLine, ih⟩
  have text : ∀ arguments : String,
      s!"{name}({arguments});\n" = (name ++ "(" ++ arguments ++ ");") ++ "\n" := by
    intro arguments
    show name ++ "(" ++ arguments ++ (");" ++ "\n") = _
    rw [← String.append_assoc]
  have shape : (name ++ "(" ++ joinTexts ", " codes ++ ");").toList =
      name.toList ++ '(' :: (joinTexts ", " codes ++ ");").toList := by simp
  rw [text]
  refine lists_leaf ?_ ?_ ?_ fun v later => ?_
  · simp only [oneLine_append]
    exact ⟨⟨⟨oneLine_word isName, by decide⟩, oneLines⟩, by decide⟩
  · rw [shape]
    exact isFrame_word isName (by decide) fun same => absurd same (by decide)
  · rw [shape]
    exact head?_word isName
  · simp only [Leaf.IsLine, named]
    refine ⟨codes, _, found, by rw [isProcedure v (grows.trans later)], ?_⟩
    have same := meant isTyped v later
    rw [same]
    exact all

/-- Words at the start of a line that only holds others together. -/
def frameLeads : List String := ["\x7d", "if (", "for (", "while ("]

theorem isFrame_append {lead : String} (among : lead ∈ frameLeads) (rest : String) :
    isFrame (lead ++ rest).toList := by
  simp only [frameLeads, List.mem_cons, List.not_mem_nil, or_false] at among
  rcases among with rfl | rfl | rfl | rfl <;> simp [isFrame]

theorem head?_append {lead : String} (among : lead ∈ frameLeads) (rest : String) :
    (lead ++ rest).toList.head? ≠ some ' ' := by
  simp only [frameLeads, List.mem_cons, List.not_mem_nil, or_false] at among
  rcases among with rfl | rfl | rfl | rfl <;> simp

/-- A text lists statements up to a brace that closes it, at the start of a line or behind an earlier
brace. -/
def Closes (known : Bool) (s : Pass) (leaves : List Leaf) (text : String) : Prop :=
  ∃ front, text = front ++ "\x7d" ∧ ∀ before ∈ ["", "\x7d else "], Lists known s leaves (before ++ front)

section Closes

variable {leaves more : List Leaf} {text other body : String}

theorem Closes.later {t : Pass} (closes : Closes known s leaves text) (grows : s.Grows t) :
    Closes known t leaves text := by
  obtain ⟨front, shape, lists⟩ := closes
  exact ⟨front, shape, fun before among => (lists before among).later grows⟩

/-- The head of a block is a line of its own, and what is in the block is listed. -/
theorem closes_braced {lead rest : String} (among : lead ∈ frameLeads) (oneLine : OneLine (lead ++ rest))
    (lists : Lists known s leaves body) : Closes known s leaves (braced (lead ++ rest) body) := by
  refine ⟨(lead ++ rest ++ " \x7b") ++ "\n" ++ body, ?_, fun before between => ?_⟩
  · have opening : " \x7b\n" = " \x7b" ++ "\n" := rfl
    rw [braced, opening, @String.append_assoc (lead ++ rest) " \x7b" "\n"]
  · rw [← String.append_assoc, ← String.append_assoc]
    refine Lists.before ?_ lists
    simp only [List.mem_cons, List.not_mem_nil, or_false] at between
    rcases between with rfl | rfl
    · rw [String.empty_append, @String.append_assoc lead]
      refine lists_frame ?_ (isFrame_append among _) (head?_append among _)
      rw [← String.append_assoc]
      exact oneLine_append.mpr ⟨oneLine, by decide⟩
    · have brace : "\x7d else " = "\x7d" ++ " else " := rfl
      have closing : "\x7d" ∈ frameLeads := List.mem_cons_self ..
      rw [brace, @String.append_assoc "\x7d"]
      refine lists_frame ?_ (isFrame_append closing _) (head?_append closing _)
      simp only [oneLine_append]
      exact ⟨by decide, by decide, oneLine_append.mp oneLine, by decide⟩

/-- What comes after the brace of a block starts in the line of the brace. -/
theorem Closes.followed (closes : Closes known s leaves text) (others : Closes known s more other) :
    Closes known s (leaves ++ more) (text ++ " else " ++ other) := by
  obtain ⟨front, rfl, lists⟩ := closes
  obtain ⟨back, rfl, listsOther⟩ := others
  refine ⟨front ++ ("\x7d else " ++ back), ?_, fun before among => ?_⟩
  · have brace : "\x7d else " = "\x7d" ++ " else " := rfl
    simp only [brace, String.append_assoc]
  · rw [← String.append_assoc]
    exact (lists before among).append (listsOther _ (by simp))

/-- A last block without a condition. -/
theorem Closes.otherwise (closes : Closes known s leaves text) (lists : Lists known s more body) :
    Closes known s (leaves ++ more) (text ++ (" else" ++ braced "" body)) := by
  obtain ⟨front, rfl, each⟩ := closes
  refine ⟨front ++ ("\x7d else \x7b" ++ "\n" ++ body), ?_, fun before among => ?_⟩
  · have brace : "\x7d else \x7b" ++ "\n" = "\x7d" ++ (" else" ++ " \x7b\n") := rfl
    rw [brace, braced, String.empty_append]
    simp only [String.append_assoc]
  · rw [← String.append_assoc]
    refine (each before among).append (Lists.before ?_ lists)
    exact lists_frame (by decide) (by decide) (by decide)

/-- A line feed behind the last brace ends the last line. -/
theorem Closes.ended (closes : Closes known s leaves text) : Lists known s leaves (text ++ "\n") := by
  obtain ⟨front, rfl, each⟩ := closes
  have first := each "" (by simp)
  rw [String.empty_append] at first
  have last : Lists known s [] ("\x7d" ++ "\n") := lists_frame (by decide) (by decide) (by decide)
  have whole := first.append last
  rwa [List.append_nil, ← String.append_assoc] at whole

theorem closes_joinTexts {α : Type} {items : List α} {texts : List String} {inside : α → List Leaf}
    (filled : texts ≠ [])
    (each : List.Forall₂ (fun item text => Closes known s (inside item) text) items texts) :
    Closes known s (items.flatMap inside) (joinTexts " else " texts) := by
  induction each with
  | nil => exact absurd rfl filled
  | @cons item text items texts first others ih =>
    cases others with
    | nil => simpa [joinTexts] using first
    | @cons next other items texts _ _ =>
      rw [List.flatMap_cons, joinTexts, String.intercalate_cons_cons]
      exact first.followed (ih (by simp))

end Closes

theorem Fills.oneLine {order : Order} {meant : Pass → Expr} {text : String}
    (fills : Fills typed order meant text s) :
    OneLine text := by
  obtain ⟨_, _, writes, _, _⟩ := fills
  exact writes.oneLine

variable {inside : String → List Leaf}

theorem isLiteral_false : IsLiteral tight "false" .atomic (.word "false") :=
  isLiteral_word (by decide)

/-- An arm of a branch holds what is in its body. -/
theorem emits_arm {arm : Nat}
    (offers : site.OffersAt tight typed numeric s!"IF{arm}" (rows.operand? · s!"IF{arm}"))
    (opens : site.OpensAt known tight s!"DO{arm}" (inside s!"DO{arm}")) :
    Emits tight (Template.arm site arm) s fun text t => Closes known t (inside s!"DO{arm}") text := by
  unfold Template.arm
  refine (offers.fills isLiteral_false .none).bind fun condition t _ fills => ?_
  refine (opens t).bind fun body u _ lists => ?_
  have shape : s!"if ({condition})" = "if (" ++ (condition ++ ")") := by
    show "if (" ++ condition ++ ")" = _
    rw [String.append_assoc]
  rw [shape]
  refine emits_pure (closes_braced (by decide) ?_ lists)
  simp only [oneLine_append]
  exact ⟨by decide, fills.oneLine, by decide⟩

/-- A branch holds what is in the bodies of its arms, and then what is done otherwise. -/
theorem emits_branch {count : Nat} (arms : Template.armsOf site = List.range (count + 1))
    (offers : ∀ arm : Nat, ∃ numeric : Prop,
    site.OffersAt tight typed numeric s!"IF{arm}" (rows.operand? · s!"IF{arm}"))
    (opens : ∀ arm : Nat, site.OpensAt known tight s!"DO{arm}" (inside s!"DO{arm}"))
    (opensLast : site.OpensAt known tight "ELSE" (inside "ELSE")) :
    Emits tight (Template.branch site) s fun output t => Tells known t
      ((((List.range (count + 1)).map fun arm => s!"DO{arm}") ++
        if (site.socket? "ELSE").isSome then ["ELSE"] else []).flatMap inside) output := by
  unfold Template.branch
  rw [arms]
  have each : ∀ arm ∈ List.range (count + 1), ∀ s, Emits tight (Template.arm site arm) s
      fun text t => Closes known t (inside s!"DO{arm}") text := by
    intro arm _ s
    obtain ⟨numeric, offersArm⟩ := offers arm
    exact emits_arm offersArm (opens arm)
  refine (emits_mapM _ each fun _ _ _ _ grows closes => closes.later grows).bind fun texts t _ closes => ?_
  have filled : texts ≠ [] := by
    rintro rfl
    have length := closes.length_eq
    simp at length
  have joined : Closes known t ((List.range (count + 1)).flatMap fun arm => inside s!"DO{arm}")
      (joinTexts " else " texts) :=
    closes_joinTexts filled closes
  rw [List.flatMap_append, List.flatMap_map]
  by_cases otherwise : (site.socket? "ELSE").isSome
  · simp only [if_pos otherwise, pure_bind]
    refine (opensLast t).bind fun body u grows lists => ?_
    refine emits_pure ⟨_, rfl, ?_⟩
    have whole := ((joined.later grows).otherwise lists).ended
    simpa [String.join_cons] using whole
  · simp only [if_neg otherwise, pure_bind]
    refine emits_pure ⟨_, rfl, ?_⟩
    simpa using joined.ended

theorem oneLine_for {counter count : String} (isName : IsName counter.toList) (oneLine : OneLine count) :
    OneLine ("for (" ++ ("int " ++ counter ++ " = 0; " ++ counter ++ " < " ++ count ++ "; " ++
    counter ++ "++)")) := by
  have word := oneLine_word isName
  simp only [oneLine_append]
  exact ⟨by
    decide, ⟨⟨⟨⟨⟨⟨⟨by decide, word⟩, by decide⟩, word⟩, by decide⟩, oneLine⟩, by decide⟩, word⟩, by decide⟩

theorem closes_countingLoop {counter count body : String} {leaves : List Leaf}
    (isName : IsName counter.toList) (oneLine : OneLine count) (lists : Lists known s leaves body) :
    Lists known s leaves (Template.countingLoop counter count body) := by
  have shape : s!"for (int {counter} = 0; {counter} < {count}; {counter}++)" =
      "for (" ++ ("int " ++ counter ++ " = 0; " ++ counter ++ " < " ++ count ++ "; " ++
        counter ++ "++)") := by
    show "for (int " ++ counter ++ " = 0; " ++ counter ++ " < " ++ count ++ "; " ++ counter ++ "++)" = _
    simp only [← String.append_assoc]
    rfl
  rw [Template.countingLoop, shape]
  exact (closes_braced (by decide) (oneLine_for isName oneLine) lists).ended

/-- A counted loop holds what is in its body; the count may have a line before it. -/
theorem emits_repeatTimes (offers : site.OffersAt tight typed numeric "TIMES" (rows.operand? · "TIMES"))
    (opens : site.OpensAt known tight "DO" (inside "DO")) :
    Emits tight (Template.repeatTimes site) s fun output t => Tells known t (inside "DO") output := by
  unfold Template.repeatTimes
  refine (offers.fills isLiteral_zero .assignment).bind fun times t _ fills => ?_
  refine (opens t).bind fun body u _ lists => ?_
  refine (Emission.emits_distinctName "count" .variable).bind fun counter v growsCounter isCounter => ?_
  split
  · exact emits_pure ⟨_, rfl, closes_countingLoop isCounter fills.oneLine (lists.later growsCounter)⟩
  · refine (Emission.emits_distinctName "repeat_end" .variable).bind fun bound w growsBound isBound => ?_
    have loop := closes_countingLoop isCounter (oneLine_word isBound)
      ((lists.later growsCounter).later growsBound)
    have shape : s!"int {bound} = {times};\n" = ("int " ++ bound ++ " = " ++ times ++ ";") ++ "\n" := by
      show "int " ++ bound ++ " = " ++ times ++ (";" ++ "\n") = _
      rw [← String.append_assoc]
    rw [shape]
    refine emits_pure ⟨_, rfl, Lists.before (lists_frame ?_ ?_ ?_) loop⟩
    · simp only [oneLine_append]
      exact ⟨⟨⟨⟨by decide, oneLine_word isBound⟩, by decide⟩, fills.oneLine⟩, by decide⟩
    · obtain ⟨filled, inName, _⟩ := isBound
      cases word : bound.toList with
      | nil => exact absurd word filled
      | cons c rest =>
        have first := inName c (by simp [word])
        simp [isFrame, word, first]
    · simp

/-- A loop with a test holds what is in its body. -/
theorem emits_whileUntil (offers : site.OffersAt tight typed numeric "BOOL" (rows.operand? · "BOOL"))
    (opens : site.OpensAt known tight "DO" (inside "DO")) :
    Emits tight (Template.whileUntil site) s fun output t => Tells known t (inside "DO") output := by
  unfold Template.whileUntil
  extract_lets isUntil
  refine (offers.fills isLiteral_false _).bind fun test t _ fills => ?_
  extract_lets turned
  refine (opens t).bind fun body u _ lists => ?_
  have oneLine : OneLine turned := by
    simp only [turned]
    split
    · exact oneLine_append.mpr ⟨by decide, fills.oneLine⟩
    · exact fills.oneLine
  have shape : s!"while ({turned})" = "while (" ++ (turned ++ ")") := by
    show "while (" ++ turned ++ ")" = _
    rw [String.append_assoc]
  rw [shape]
  refine emits_pure ⟨_, rfl, (closes_braced (by decide) ?_ lists).ended⟩
  simp only [oneLine_append]
  exact ⟨by decide, oneLine, by decide⟩

/-- The definition of a procedure leaves no code where it stands. -/
theorem emits_defineProcedure (valid : site.head.Valid tight .defineProcedure)
    (opens : ∃ leaves, site.OpensAt known tight "STACK" leaves)
    (below : ∀ s, Emits tight site.below s fun _ _ => True) :
    Emits tight (Template.defineProcedure site) s fun output _ => output = none := by
  obtain ⟨params, found⟩ := valid.params
  obtain ⟨leaves, opensStack⟩ := opens
  unfold Template.defineProcedure Template.parameterNames
  rw [← bind_assoc]
  refine (emits_procedure valid (by decide)).bind fun name _ _ _ => ?_
  rw [bind_assoc]
  refine (Emission.emits_ofCount found).bind ?_
  rintro _ _ _ ⟨rfl, rfl⟩
  have each : ∀ param ∈ params.map Json.text, ∀ s, Emits tight
      (Emission.textOf param >>= fun name => Emission.getName name .variable) s fun _ _ => True := by
    intro param among s
    obtain ⟨text, _, rfl⟩ := List.mem_map.mp among
    refine Emission.emits_textOf.bind fun name _ _ _ => ?_
    exact (Emission.emits_getName name .variable).imp fun _ _ _ _ => trivial
  refine (emits_mapM _ each fun _ _ _ _ _ _ => trivial).bind fun names _ _ _ => ?_
  refine (opensStack _).bind fun body _ _ _ => ?_
  extract_lets joined
  have finishes : ∀ code s, Emits tight (site.finish code) s fun _ _ => True := by
    intro code s
    rw [Site.finish]
    exact (below s).bind fun _ _ _ _ => emits_pure trivial
  refine (finishes _ _).bind fun code _ _ _ => ?_
  refine (Emission.emits_define ?_).bind fun _ _ _ _ => emits_pure rfl
  intro same
  have first := congrArg (fun key : String => key.toList.head?) same
  rw [String.toList_append, List.head?_append] at first
  cases first

end Statements

end BlockCompiler

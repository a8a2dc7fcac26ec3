import BlockCompiler.Proofs.Emission.Laid

/-!
The templates of statements: each gives lines that nest, and that show its block and all that the block reads.
-/

namespace BlockCompiler

/-- What holds of texts between two states of a pass, and so between an earlier and a later one. -/
def Stretches (Holds : Pass → Pass → String → Prop) : Prop :=
  ∀ r s t u text, r.Precedes s → t.Precedes u → Holds s t text → Holds r u text

/-- A site gives certain texts for the opening of a name. -/
def Site.GivesAt (site : Site) (name : String) (Holds : Pass → Pass → String → Prop) : Prop :=
  ∀ s, Gives (site.statements name) s fun text t => Holds s t text

/-- A site gives the lines of the opening of a name, further in. -/
def Site.LaysAt (site : Site) (name : String) (heads : List BlockHead) : Prop :=
  ∀ s, Gives (site.statements name) s fun text t => Lays 1 1 heads t text

/-- What a template of statements gives are lines that show the block of the site and all that it reads. -/
def Arranges (site : Site) (below : String → List BlockHead) (output : Option Output) (pass : Pass) : Prop :=
  ∃ text, output = some (.statements text) ∧ Lays 0 0 (site.head :: site.head.reads.flatMap below) pass text

theorem stretches_lays (a b : Nat) (heads : List BlockHead) :
    Stretches fun _ t text => Lays a b heads t text :=
  fun _ _ _ _ _ _ later lays => lays.later later

section Statements

variable {site : Site} {below : String → List BlockHead} {heads more : List BlockHead} {s t : Pass}
  {code body : String}

/-- An expression as a statement. -/
theorem arranges_expression (shows : Shows heads code s) (read : site.head.reads.flatMap below = heads)
    (own : site.head.ShownIn s code.toList) :
    Arranges site below (some (.statements (code ++ ";" ++ "\n"))) s := by
  have value : Exhibits site below (some (.value code .none)) s := exhibits shows read own
  obtain ⟨_, _, same, whole⟩ := value
  cases same
  exact ⟨_, rfl, whole.lays⟩

/-- Lines that show what a block reads show all, if any line shows the block. -/
theorem arranges_lines {text : String} (lays : Lays 0 0 heads s text) (filled : text ≠ "")
    (read : site.head.reads.flatMap below ⊆ heads) (own : ∀ line, site.head.ShownIn s line) :
    Arranges site below (some (.statements text)) s := by
  obtain ⟨lines, shape, nests, steady, shown⟩ := lays
  refine ⟨text, rfl, lines, shape, nests, steady,
    List.forall_mem_cons.mpr ⟨?_, fun head among => shown head (read among)⟩⟩
  cases lines with
  | nil => exact absurd (String.toList_inj.mp shape) filled
  | cons line lines => exact ⟨line, List.mem_cons_self .., own line⟩

theorem gives_print (showsAt : site.ShowsAt "TEXT" heads) :
    Gives (Template.print site) s fun output t => ∃ message,
    output =
      some (.statements ("std::cout" ++ spaced "<<" ++ message ++ spaced "<<" ++ "std::endl" ++
      ";" ++ "\n")) ∧
      Shows heads message t ∧ t.definitions.has "include_iostream" := by
  unfold Template.print
  refine (Emission.gives_includeHeader "iostream" (by decide)).bind fun _ t _ has => ?_
  refine (showsAt.shows (neat_literal "") .shift).bind fun message u later shows => ?_
  have text : s!"std::cout << {message} << std::endl;\n" =
      "std::cout" ++ spaced "<<" ++ message ++ spaced "<<" ++ "std::endl" ++ ";" ++ "\n" := by
    show "std::cout << " ++ message ++ " << std::endl;\n" = _
    have front : "std::cout << " = "std::cout" ++ spaced "<<" := rfl
    have back : " << std::endl;\n" = spaced "<<" ++ "std::endl" ++ ";" ++ "\n" := rfl
    simp only [front, back, ← String.append_assoc]
  rw [text]
  exact gives_return ⟨message, rfl, shows, later.has _ has⟩

/-- What is printed is an expression. -/
theorem Shows.printed (shows : Shows heads code s) :
    Shows heads ("std::cout" ++ spaced "<<" ++ code ++ spaced "<<" ++ "std::endl") s := by
  have word : ∀ name ∈ ["std::cout", "std::endl"], Shows [] name s := by
    have plain : ∀ name ∈ ["std::cout", "std::endl"], (∀ c ∈ name.toList, isSpecial c = false) ∧
        name.toList.head? = some 's' ∧
        ' ' ∉ name.toList := by decide
    intro name among
    obtain ⟨simple, headed, unbroken⟩ := plain name among
    exact shows_nothing ⟨whole_of_plain simple, opens_word headed (by decide) unbroken⟩
  have separates := separates_sign "<<" (by decide)
  have whole := ((word "std::cout" (by simp)).joined shows separates).joined
    (word "std::endl" (by simp)) separates
  rwa [List.nil_append, List.append_nil] at whole

theorem arranges_print (named : BlockKind.ofName? site.head.type = some .print)
    (showsAt : site.ShowsAt "TEXT" (below "TEXT")) :
    Gives (Template.print site) s (Arranges site below) := by
  refine (gives_print showsAt).imp ?_
  rintro _ t _ ⟨message, rfl, shows, has⟩
  refine arranges_expression shows.printed ?_
    ⟨BlockHead.isSeen_of_kind named (by decide), fun name among => ?_⟩
  · simp [BlockHead.reads_plain named (by decide) rfl, BlockKind.shape]
  · obtain rfl : name = "iostream" := by simpa [BlockHead.headers, named] using among
    exact has

theorem gives_getVariable : Gives site.getVariable s fun text t =>
    IsName text.toList ∧ t.names.assigned.get? (nameKey (site.head.field "VAR").word .variable) =
    some text := by
  unfold Site.getVariable
  refine Emission.gives_textOf.bind ?_
  rintro name t _ ⟨field, rfl⟩
  have word : (site.head.field "VAR").word = name := by
    rw [show site.head.field "VAR" = .text name from field]
    rfl
  rw [word]
  exact Emission.gives_getName name .variable

/-- A line that gives or adds a value to a variable. -/
theorem gives_assignment {name : String} (sign : String) (showsAt : site.ShowsAt name heads) :
    Gives (do
      let value ← site.value name .assignment "0"
      let target ← site.getVariable
      statement (target ++ spaced sign ++ value ++ ";\n")) s fun output t => ∃ target value,
        output = some (.statements (target ++ spaced sign ++ value ++ ";" ++ "\n")) ∧ IsName target.toList ∧
          t.names.assigned.get? (nameKey (site.head.field "VAR").word .variable) = some target ∧
          Shows heads value t := by
  refine (showsAt.shows neat_zero .assignment).bind fun value t _ shows => ?_
  refine gives_getVariable.bind ?_
  rintro target u later ⟨isName, assigned⟩
  have text : target ++ spaced sign ++ value ++ ";\n" = target ++ spaced sign ++ value ++ ";" ++ "\n" := by
    rw [@String.append_assoc _ ";" "\n"]
    rfl
  rw [text]
  exact gives_return ⟨target, value, rfl, isName, assigned, shows.later later⟩

theorem gives_setVariable (showsAt : site.ShowsAt "VALUE" heads) :
    Gives (Template.setVariable site) s fun output t => ∃ target value,
    output = some (.statements (target ++ spaced "=" ++ value ++ ";" ++ "\n")) ∧ IsName target.toList ∧
      t.names.assigned.get? (nameKey (site.head.field "VAR").word .variable) = some target ∧
      Shows heads value t :=
  gives_assignment "=" showsAt

theorem gives_change (showsAt : site.ShowsAt "DELTA" heads) :
    Gives (Template.change site) s fun output t => ∃ target value,
    output = some (.statements (target ++ spaced "+=" ++ value ++ ";" ++ "\n")) ∧ IsName target.toList ∧
      t.names.assigned.get? (nameKey (site.head.field "VAR").word .variable) = some target ∧
      Shows heads value t :=
  gives_assignment "+=" showsAt

/-- A value that is given or added to a variable. -/
theorem Shows.assigned (shows : Shows heads code s) {target sign : String} (isName : IsName target.toList)
    (among : sign ∈ ["=", "+="]) :
    Shows heads (target ++ spaced sign ++ code) s := by
  have within : ∀ sign ∈ ["=", "+="], sign ∈ infixSigns := by decide
  exact (shows_nothing (neat_word isName)).joined shows (separates_sign _ (within sign among))

theorem arranges_setVariable (named : BlockKind.ofName? site.head.type = some .setVariable)
    (showsAt : site.ShowsAt "VALUE" (below "VALUE")) :
    Gives (Template.setVariable site) s (Arranges site below) := by
  refine (gives_setVariable showsAt).imp ?_
  rintro _ t _ ⟨target, value, rfl, isName, _, shows⟩
  refine arranges_expression (shows.assigned isName (by simp)) ?_
    (BlockHead.shownIn_of_kind named (by decide) (by decide))
  simp [BlockHead.reads_plain named (by decide) rfl, BlockKind.shape]

theorem arranges_change (named : BlockKind.ofName? site.head.type = some .change)
    (showsAt : site.ShowsAt "DELTA" (below "DELTA")) :
    Gives (Template.change site) s (Arranges site below) := by
  refine (gives_change showsAt).imp ?_
  rintro _ t _ ⟨target, value, rfl, isName, _, shows⟩
  refine arranges_expression (shows.assigned isName (by simp)) ?_
    (BlockHead.shownIn_of_kind named (by decide) (by decide))
  simp [BlockHead.reads_plain named (by decide) rfl, BlockKind.shape]

/-- A call with any number of arguments. -/
theorem shows_call {α : Type} {items : List α} {texts : List String} {inside : α → List BlockHead}
    {name : String} (isName : IsName name.toList)
    (each : List.Forall₂ (fun item text => Shows (inside item) text s) items texts) :
    Shows (items.flatMap inside) (name ++ "(" ++ joinTexts ", " texts ++ ")") s := by
  by_cases empty : texts = []
  · subst empty
    rw [List.forall₂_nil_right_iff.mp each]
    have neat := (neat_word isName).applied whole_empty "(" ")" (by simp)
    have none : joinTexts ", " [] = "" := rfl
    rw [none]
    exact shows_nothing (by simpa only [String.append_assoc] using neat)
  · exact (shows_joinTexts empty each separates_comma).called isName

theorem gives_callProcedure {tight : Prop} (named : BlockKind.ofName? site.head.type = some .callProcedure)
    (valid : site.head.Valid tight .callProcedure)
    (showsAt : ∀ i : Nat, site.ShowsAt ("ARG" ++ toString i) (below ("ARG" ++ toString i))) :
    Gives (Template.callProcedure site) s fun output t => ∃ function arguments,
      output = some (.statements (function ++ "(" ++ joinTexts ", " arguments ++ ")" ++ ";" ++ "\n")) ∧
        IsName function.toList ∧
        t.names.assigned.get? (nameKey (site.head.field "NAME").word .procedure) = some function ∧
          List.Forall₂ (fun name text => Shows (below name) text t) site.head.reads arguments := by
  obtain ⟨params, found⟩ := valid.params
  have read : site.head.reads = (List.range params.length).map ("ARG" ++ toString ·) := by
    rw [BlockHead.reads_of_kind named (BlockHead.takesEnd_of_kind named (by decide))]
    simp only [BlockKind.rows, BlockKind.shape, Option.map_some, Option.getD_some, List.nil_append,
      RowFamily.rows, found, List.length_map,
      List.map_map]
    rfl
  unfold Template.callProcedure
  refine Emission.gives_textOf.bind ?_
  rintro name t _ ⟨field, rfl⟩
  refine (Emission.gives_getName name .procedure).bind ?_
  rintro function u _ ⟨isName, assigned⟩
  refine Emission.gives_ofCount.bind ?_
  rintro items v _ ⟨same, rfl⟩
  cases found.symm.trans same
  refine (Site.gives_values "ARG" showsAt neat_zero _ .none).bind fun texts w later each => ?_
  rw [List.length_map] at each
  have text : ∀ arguments : String,
      s!"{function}({arguments});\n" = function ++ "(" ++ arguments ++ ")" ++ ";" ++ "\n" := by
    intro arguments
    show function ++ "(" ++ arguments ++ ");\n" = _
    have back : ");\n" = ")" ++ ";" ++ "\n" := rfl
    simp only [back, ← String.append_assoc]
  have word : (site.head.field "NAME").word = name := by
    rw [show site.head.field "NAME" = .text name from field]
    rfl
  dsimp only
  rw [text, read, word]
  exact gives_return ⟨function, texts, rfl, isName, later.grows.names _ _ assigned,
    List.forall₂_map_left_iff.mpr each⟩

theorem arranges_callProcedure {tight : Prop} (named : BlockKind.ofName? site.head.type = some .callProcedure)
    (valid : site.head.Valid tight .callProcedure)
    (showsAt : ∀ i : Nat, site.ShowsAt ("ARG" ++ toString i) (below ("ARG" ++ toString i))) :
    Gives (Template.callProcedure site) s (Arranges site below) := by
  refine (gives_callProcedure named valid showsAt).imp ?_
  rintro _ t _ ⟨function, arguments, rfl, isName, assigned, each⟩
  refine arranges_expression (shows_call isName each) rfl ⟨?_, BlockHead.isIncluded_of_kind named (by decide)⟩
  simp only [BlockHead.IsSeen, named]
  exact ⟨function, arguments, assigned, each.length_eq.symm, within_refl⟩

/-- An arm of a branch has a condition and a body. -/
theorem gives_arm {Holds : Pass → Pass → String → Prop} (stretches : Stretches Holds) {arm : Nat}
    (showsAt : site.ShowsAt s!"IF{arm}" heads) (givesAt : site.GivesAt s!"DO{arm}" Holds) :
    Gives (Template.arm site arm) s fun text t => ∃ condition body,
      text = braced ("if (" ++ condition ++ ")") body ∧
      Shows heads condition t ∧ Holds s t body := by
  unfold Template.arm
  refine (showsAt.shows (neat_word (by decide : IsName "false".toList)) .none).bind
    fun condition t precedes shows => ?_
  refine (givesAt t).bind fun body u later holds => ?_
  exact gives_return ⟨condition, body, rfl, shows.later later, stretches _ _ _ _ _ precedes .refl holds⟩

/-- A branch has its arms one after the other, and perhaps a body for all else. -/
theorem gives_arms {Each : Nat → Pass → Pass → String → Prop} {Holds : Pass → Pass → String → Prop}
    {count : Nat} (arms : Template.armsOf site = List.range (count + 1))
    (each : ∀ arm s, Gives (Template.arm site arm) s fun text t => Each arm s t text)
    (givesLast : site.GivesAt "ELSE" Holds) :
    Gives (Template.branch site) s fun output t => ∃ texts u, Linked Each (List.range (count + 1)) s u texts ∧
      if (site.socket? "ELSE").isSome then ∃ body, u.Precedes t ∧ Holds u t body ∧
          output = some (.statements (joinTexts " else " texts ++ (" else" ++ braced "" body) ++ "\n"))
        else u = t ∧ output = some (.statements (joinTexts " else " texts ++ "\n")) := by
  unfold Template.branch
  rw [arms]
  refine (gives_mapM_linked _ fun arm _ s => each arm s).bind fun texts t _ linked => ?_
  by_cases otherwise : (site.socket? "ELSE").isSome
  · simp only [if_pos otherwise, pure_bind]
    refine (givesLast t).bind fun body u later holds => ?_
    exact gives_return ⟨texts, t, linked, body, later, holds, by simp [String.join_cons]⟩
  · simp only [if_neg otherwise, pure_bind]
    exact gives_return ⟨texts, t, linked, rfl, by simp⟩

/-- A branch shows what is in its arms, and then what is done otherwise. -/
theorem arranges_branch {count : Nat} {rows : List RowSpec}
    (named : BlockKind.ofName? site.head.type = some .branch)
    (read : site.head.reads = rows.map (·.1)) (arms : Template.armsOf site = List.range (count + 1))
    (inRows : ∀ name ∈ rows.map (·.1), (∃ arm < count + 1, name = s!"IF{arm}" ∨ name = s!"DO{arm}") ∨
      name = "ELSE" ∧ (site.socket? "ELSE").isSome)
    (showsAt : ∀ arm : Nat, site.ShowsAt s!"IF{arm}" (below s!"IF{arm}"))
    (laysAt : ∀ arm : Nat, site.LaysAt s!"DO{arm}" (below s!"DO{arm}"))
    (laysLast : site.LaysAt "ELSE" (below "ELSE")) :
    Gives (Template.branch site) s (Arranges site below) := by
  have own : ∀ t line, site.head.ShownIn t line :=
    fun t line => BlockHead.shownIn_of_kind named (by decide) (by decide)
  have each : ∀ (arm : Nat) s, Gives (Template.arm site arm) s
      fun text t => Encloses (below s!"IF{arm}" ++ below s!"DO{arm}") t text := by
    intro arm s
    refine (gives_arm (stretches_lays _ _ _) (showsAt arm) (laysAt arm)).imp ?_
    rintro _ t _ ⟨condition, body, rfl, shows, lays⟩
    exact shows.encloses lays
  have inArms : ∀ arm < count + 1, ∀ head ∈ below s!"IF{arm}" ++ below s!"DO{arm}",
      head ∈ (List.range (count + 1)).flatMap fun arm => below s!"IF{arm}" ++ below s!"DO{arm}" :=
    fun arm small head among => List.mem_flatMap.mpr ⟨arm, List.mem_range.mpr small, among⟩
  have last : site.GivesAt "ELSE" fun _ t text => Lays 1 1 (below "ELSE") t text := laysLast
  refine (gives_arms arms each last).imp ?_
  rintro output t _ ⟨texts, u, linked, rest⟩
  have encloses := linked.forall₂ fun _ _ _ _ precedes encloses => encloses.later precedes
  have filled : texts ≠ [] := by
    rintro rfl
    have length := encloses.length_eq
    simp at length
  have joined := encloses_joinTexts filled encloses
  by_cases otherwise : (site.socket? "ELSE").isSome
  · rw [if_pos otherwise] at rest
    obtain ⟨body, later, lays, rfl⟩ := rest
    refine arranges_lines ((joined.later later).otherwise lays).ended (by simp) ?_ (own _)
    rw [read]
    intro head among
    obtain ⟨name, inNames, inside⟩ := List.mem_flatMap.mp among
    rcases inRows name inNames with ⟨arm, small, rfl | rfl⟩ | ⟨rfl, _⟩
    · exact List.mem_append_left _ (inArms arm small head (List.mem_append_left _ inside))
    · exact List.mem_append_left _ (inArms arm small head (List.mem_append_right _ inside))
    · exact List.mem_append_right _ inside
  · rw [if_neg otherwise] at rest
    obtain ⟨rfl, rfl⟩ := rest
    refine arranges_lines joined.ended (by simp) ?_ (own _)
    rw [read]
    intro head among
    obtain ⟨name, inNames, inside⟩ := List.mem_flatMap.mp among
    rcases inRows name inNames with ⟨arm, small, rfl | rfl⟩ | ⟨_, closed⟩
    · exact inArms arm small head (List.mem_append_left _ inside)
    · exact inArms arm small head (List.mem_append_right _ inside)
    · exact absurd closed otherwise

/-- The head of a counting loop. -/
theorem Shows.lays_counting (shows : Shows heads code s) {counter : String} (isName : IsName counter.toList)
    (isCounter : s.IsCounter counter) :
    Lays 0 1 heads s (s!"for (int {counter} = 0; {counter} < {code}; {counter}++)" ++ " \x7b" ++ "\n") := by
  let front := "int " ++ counter ++ " = 0; " ++ counter ++ " < "
  have word := whole_word isName
  have plain : ∀ part ∈ ["int ", " = 0; ", " < ", "; ", "++"], Whole part := by
    have facts : ∀ part ∈ ["int ", " = 0; ", " < ", "; ", "++"], ∀ c ∈ part.toList, isSpecial c = false := by
      decide
    exact fun part among => whole_of_plain (facts part among)
  have whole : Whole (front ++ code ++ "; " ++ counter ++ "++") :=
    ((((((((plain "int " (by simp)).append word).append (plain " = 0; " (by simp))).append word).append
      (plain " < " (by simp))).append
      shows.neat.toWhole).append (plain "; " (by simp))).append word).append (plain "++" (by simp))
  have line : s!"for (int {counter} = 0; {counter} < {code}; {counter}++)" ++ " \x7b" =
      "" ++ "for " ++ "(" ++ (front ++ code ++ "; " ++ counter ++ "++") ++ ") \x7b" := by
    show "for (int " ++ counter ++ " = 0; " ++ counter ++ " < " ++ code ++ "; " ++ counter ++
      "++)" ++ " \x7b" = _
    have opening : "for (int " = "" ++ "for " ++ "(" ++ "int " := rfl
    have closing : "++)" ++ " \x7b" = "++" ++ ") \x7b" := rfl
    rw [opening, @String.append_assoc _ "++)", closing]
    simp only [front, ← String.append_assoc]
  have counts : s!"for (int {counter} = 0; {counter} < {code}; {counter}++)" ++ " \x7b" =
      "for (int " ++
        (counter ++ (" = 0; " ++ counter ++ " < " ++ code ++ "; " ++ counter ++ "++)" ++ " \x7b")) := by
    show "for (int " ++ counter ++ " = 0; " ++ counter ++ " < " ++ code ++ "; " ++ counter ++
      "++)" ++ " \x7b" = _
    simp only [← String.append_assoc]
  refine lays_line 'f' (by rw [counts]; simp) (by decide) (by decide) rfl ?_ ?_ ?_
  · rw [line]
    exact shifts_opening_line (by simp [armLeads]) (by simp) whole.balanced
  · rw [counts, String.toList_append, String.toList_append]
    refine isSteady_counter (by simp [countLeads]) isName (by simp; decide) isCounter ?_
    simp only [String.toList_append, List.mem_append, not_or]
    exact ⟨⟨⟨⟨⟨⟨⟨by decide, word.oneLine⟩, by decide⟩, shows.neat.oneLine⟩, by decide⟩, word.oneLine⟩,
      by decide⟩, by decide⟩
  · have parts : s!"for (int {counter} = 0; {counter} < {code}; {counter}++)" ++ " \x7b" =
        "for (int " ++ counter ++ " = 0; " ++ counter ++ " < " ++ code ++
          ("; " ++ counter ++ "++)" ++ " \x7b") := by
      show "for (int " ++ counter ++ " = 0; " ++ counter ++ " < " ++ code ++ "; " ++ counter ++
        "++)" ++ " \x7b" = _
      simp only [← String.append_assoc]
    rw [parts]
    exact shows.within (within_between (edged_text ⟨' ', rfl, by decide⟩) _)

/-- The line of a count that is taken before a loop. -/
theorem Shows.lays_bound (shows : Shows heads code s) {bound : String} (isName : IsName bound.toList)
    (isCounter : s.IsCounter bound) :
    Lays 0 0 heads s (s!"int {bound} = {code};" ++ "\n") := by
  have counts : s!"int {bound} = {code};" = "int " ++ (bound ++ (" = " ++ code ++ ";")) := by
    show "int " ++ bound ++ " = " ++ code ++ ";" = _
    simp only [← String.append_assoc]
  have oneLine : OneLine (" = " ++ code ++ ";") :=
    oneLine_append.mpr ⟨oneLine_append.mpr ⟨by decide, shows.neat.oneLine⟩, by decide⟩
  have whole : Whole ("int " ++ bound ++ " = " ++ code ++ ";") :=
    ((((whole_of_plain (by decide)).append (whole_word isName)).append (whole_of_plain (by decide))).append
      shows.neat.toWhole).append
      (whole_of_plain (by decide))
  refine lays_line 'i' (by rw [counts]; simp) (by decide) (by decide) rfl whole.balanced ?_ ?_
  · rw [counts, String.toList_append, String.toList_append]
    exact isSteady_counter (by simp [countLeads]) isName (by simp; decide) isCounter oneLine
  · exact shows.within (within_between (edged_text ⟨' ', rfl, by decide⟩) ";")

/-- A counting loop has a counter of its own, and a bound of its own if the count is neither a word nor a
numeral. -/
theorem gives_repeatTimes {Holds Counts : Pass → Pass → String → Prop} (stretches : Stretches Holds)
    (stretchesCounts : Stretches Counts)
    (times : ∀ s, Gives (site.value "TIMES" .assignment "0") s fun code t => Counts s t code)
    (givesAt : site.GivesAt "DO" Holds) :
    Gives (Template.repeatTimes site) s fun output t => ∃ code body counter u, s.Precedes u ∧ u.Precedes t ∧
      Counts s t code ∧
      Holds s u body ∧ u.Mints t "count" counter ∧
        if isWord code || isNumeral code then output =
          some (.statements (Template.countingLoop counter code body))
          else ∃ bound, u.Mints t "repeat_end" bound ∧ bound ≠ counter ∧
            output =
            some (.statements ("int " ++ bound ++ " = " ++ code ++ ";" ++ "\n" ++
            Template.countingLoop counter bound body)) := by
  unfold Template.repeatTimes
  refine (times s).bind fun code t precedes counts => ?_
  refine (givesAt t).bind fun body u later holds => ?_
  refine (Emission.gives_distinctName "count" .variable).bind fun counter v laterCounter mints => ?_
  have before := stretches _ _ _ _ _ precedes .refl holds
  split
  · rename_i plain
    exact gives_return ⟨code, body, counter, u, precedes.trans later, laterCounter,
      stretchesCounts _ _ _ _ _ .refl (later.trans laterCounter) counts,
      before, mints, by rw [if_pos plain]⟩
  · rename_i plain
    refine (Emission.gives_distinctName "repeat_end" .variable).bind fun bound w laterBound mintsBound => ?_
    have text : s!"int {bound} = {code};\n" = "int " ++ bound ++ " = " ++ code ++ ";" ++ "\n" := by
      show "int " ++ bound ++ " = " ++ code ++ (";" ++ "\n") = "int " ++ bound ++ " = " ++ code ++ ";" ++ "\n"
      rw [← String.append_assoc]
    rw [text]
    refine gives_return ⟨code, body, counter, u, precedes.trans later, laterCounter.trans laterBound,
      stretchesCounts _ _ _ _ _ .refl (later.trans (laterCounter.trans laterBound)) counts, before,
      mints.later laterBound, ?_⟩
    rw [if_neg plain]
    refine ⟨bound, mintsBound.earlier laterCounter, ?_, rfl⟩
    rintro rfl
    exact mintsBound.fresh mints.isPrivate.1

theorem arranges_repeatTimes (named : BlockKind.ofName? site.head.type = some .repeatTimes)
    (showsAt : site.ShowsAt "TIMES" (below "TIMES")) (laysAt : site.LaysAt "DO" (below "DO")) :
    Gives (Template.repeatTimes site) s (Arranges site below) := by
  have own : ∀ t line, site.head.ShownIn t line :=
    fun t line => BlockHead.shownIn_of_kind named (by decide) (by decide)
  have read : site.head.reads.flatMap below = below "TIMES" ++ below "DO" := by
    simp [BlockHead.reads_plain named (by decide) rfl, BlockKind.shape]
  have loop : ∀ {heads : List BlockHead} {counter count body : String} {t : Pass}, IsName counter.toList →
      t.IsCounter counter →
      Shows heads count t → Lays 1 1 (below "DO") t body →
      Lays 0 0 (heads ++ below "DO") t (Template.countingLoop counter count body) :=
        fun isName isCounter shows lays =>
    lays_braced (shows.lays_counting isName isCounter) lays
  refine (gives_repeatTimes (stretches_lays _ _ _) (fun _ _ _ _ _ _ later shows => shows.later later)
    (fun _ => showsAt.shows neat_zero .assignment) laysAt).imp ?_
  rintro output t _ ⟨code, body, counter, u, _, later, shows, lays, mints, rest⟩
  split_ifs at rest
  · subst rest
    refine arranges_lines (loop mints.isName mints.isCounter shows (lays.later later)) ?_
      (fun _ among => read ▸ among) (own _)
    simp [Template.countingLoop]
  · obtain ⟨bound, mintsBound, _, rfl⟩ := rest
    have word : Shows [] bound t := shows_nothing (neat_word mintsBound.isName)
    have counted := loop mints.isName mints.isCounter word (lays.later later)
    refine arranges_lines ((shows.lays_bound mintsBound.isName mintsBound.isCounter).append counted)
      (by simp) ?_ (own _)
    rw [read, List.nil_append]
    exact fun _ among => among

/-- A loop with a test has a body. -/
theorem gives_whileUntil {Holds : Pass → Pass → String → Prop} (stretches : Stretches Holds)
    (showsAt : site.ShowsAt "BOOL" heads) (givesAt : site.GivesAt "DO" Holds) :
    Gives (Template.whileUntil site) s fun output t => ∃ test body,
      output = some (.statements (braced ("while (" ++ test ++ ")") body ++ "\n")) ∧ Shows heads test t ∧
      Holds s t body := by
  unfold Template.whileUntil
  extract_lets isUntil
  refine (showsAt.shows (neat_word (by decide : IsName "false".toList)) _).bind fun test t precedes shows =>
    ?_
  extract_lets turned
  refine (givesAt t).bind fun body u later holds => ?_
  refine gives_return ⟨turned, body, rfl, ?_, stretches _ _ _ _ _ precedes .refl holds⟩
  simp only [turned]
  split_ifs
  · exact (shows.later later).signed _ (by simp)
  · exact shows.later later

theorem arranges_whileUntil (named : BlockKind.ofName? site.head.type = some .whileUntil)
    (showsAt : site.ShowsAt "BOOL" (below "BOOL")) (laysAt : site.LaysAt "DO" (below "DO")) :
    Gives (Template.whileUntil site) s (Arranges site below) := by
  have own : ∀ t line, site.head.ShownIn t line :=
    fun t line => BlockHead.shownIn_of_kind named (by decide) (by decide)
  have read : site.head.reads.flatMap below = below "BOOL" ++ below "DO" := by
    simp [BlockHead.reads_plain named (by decide) rfl, BlockKind.shape]
  refine (gives_whileUntil (stretches_lays _ _ _) showsAt laysAt).imp ?_
  rintro _ t _ ⟨test, body, rfl, tested, lays⟩
  have opening := tested.lays_test (a := 0) "" "while " (by simp [armLeads]) (by simp)
  have text : "" ++ "while " ++ "(" ++ test ++ ") \x7b" = "while (" ++ test ++ ")" ++ " \x7b" := by
    have lead : "" ++ "while " ++ "(" = "while (" := rfl
    have brace : ") \x7b" = ")" ++ " \x7b" := rfl
    rw [lead, brace, ← String.append_assoc]
  rw [text] at opening
  refine arranges_lines (lays_braced opening lays) ?_ (fun _ among => read ▸ among) (own _)
  simp

end Statements

end BlockCompiler

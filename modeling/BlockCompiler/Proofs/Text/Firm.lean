import BlockCompiler.Proofs.Text.Trimmed
import Mathlib.Data.List.DropRight

/-!
The lines of a text that are not blank, without the blanks at their ends. What is done to a source as a whole
changes none of them.
-/

namespace BlockCompiler

/-- A line without the spaces and tabs at its end. -/
def trimEnd (line : List Char) : List Char := line.rdropWhile isSpaceOrTab

/-- Whether something in a line is not blank. -/
def isSolid (line : List Char) : Bool := line.any fun c => !isBlank c

/-- Those of some lines that are not blank, without the spaces and tabs at their ends. -/
def firmOf (lines : List (List Char)) : List (List Char) := (lines.map trimEnd).filter isSolid

/-- The lines of a text that are not blank, without the spaces and tabs at their ends. -/
def firmLines (text : List Char) : List (List Char) := firmOf (splitLines text)

section Lines

variable {front more text : List Char} {lines : List (List Char)}

theorem trimEnd_cons (c : Char) (line : List Char) :
    trimEnd (c :: line) = if isSpaceOrTab c ∧ trimEnd line = [] then [] else c :: trimEnd line := by
  unfold trimEnd List.rdropWhile
  rw [List.reverse_cons, List.dropWhile_append]
  by_cases none : line.reverse.dropWhile isSpaceOrTab = []
  · by_cases space : isSpaceOrTab c <;> simp [none, space]
  · simp [none]

theorem isPrefix_trimEnd (line : List Char) : trimEnd line <+: line := List.rdropWhile_prefix _ _

theorem isSolid_eq_false {line : List Char} : isSolid line = false ↔ ∀ c ∈ line, isBlank c := by
  simp [isSolid]

/-- Only blanks are trimmed. -/
@[simp] theorem isSolid_trimEnd (line : List Char) : isSolid (trimEnd line) = isSolid line := by
  induction line with
  | nil => rfl
  | cons c line ih =>
    rw [trimEnd_cons]
    split_ifs with spaces
    · have rest : isSolid line = false := by rw [← ih, spaces.2]; rfl
      exact (isSolid_eq_false.mpr (List.forall_mem_cons.mpr
        ⟨isBlank_of_isSpaceOrTab spaces.1, isSolid_eq_false.mp rest⟩)).symm
    · simp only [isSolid, List.any_cons] at ih ⊢
      rw [ih]

/-- What ends a line with something that is no space is not trimmed. -/
theorem trimEnd_append {line : List Char} (more : List Char)
    (solid : ∀ c ∈ line.getLast?, isSpaceOrTab c = false) (filled : line ≠ []) :
    trimEnd (line ++ more) = line ++ trimEnd more := by
  induction line with
  | nil => exact absurd rfl filled
  | cons c line ih =>
    rw [List.cons_append, trimEnd_cons, if_neg]
    · cases line with
      | nil => rfl
      | cons d line => rw [ih (by simpa using solid) (by simp), ← List.cons_append]
    · rintro ⟨space, none⟩
      cases line with
      | nil => simp [solid c (by simp)] at space
      | cons d line =>
        rw [ih (by simpa using solid) (by simp)] at none
        simp at none

@[simp] theorem firmOf_append (lines others : List (List Char)) :
    firmOf (lines ++ others) = firmOf lines ++ firmOf others := by
  rw [firmOf, List.map_append, List.filter_append]
  rfl

theorem firmOf_cons (line : List Char) (lines : List (List Char)) :
    firmOf (line :: lines) = firmOf [line] ++ firmOf lines := firmOf_append [line] lines

theorem firmOf_blank (blank : ∀ line ∈ lines, isSolid line = false) : firmOf lines = [] := by
  rw [firmOf, List.filter_eq_nil_iff]
  intro trimmed member
  obtain ⟨line, among, rfl⟩ := List.mem_map.mp member
  simpa using blank line among

theorem mem_firmOf {line : List Char} :
    line ∈ firmOf lines ↔ ∃ whole ∈ lines, isSolid whole ∧ trimEnd whole = line := by
  rw [firmOf, List.mem_filter, List.mem_map]
  constructor
  · rintro ⟨⟨whole, among, rfl⟩, solid⟩
    exact ⟨whole, among, by simpa using solid, rfl⟩
  · rintro ⟨whole, among, solid, rfl⟩
    exact ⟨⟨whole, among, rfl⟩, by simpa using solid⟩

@[simp] theorem firmLines_nil : firmLines [] = [] := rfl

theorem splitLines_feed (text : List Char) : splitLines ('\n' :: text) = [] :: splitLines text :=
  splitLines_append List.not_mem_nil text

theorem splitLines_append_feed (front more : List Char) :
    splitLines (front ++ '\n' :: more) = splitLines front ++ splitLines more := by
  induction front with
  | nil => exact splitLines_feed more
  | cons c front ih =>
    by_cases feed : c = '\n'
    · subst feed
      rw [List.cons_append, splitLines_feed, splitLines_feed, ih, List.cons_append]
    · obtain ⟨line, rest, split, whole⟩ := splitLines_cons_of_ne feed (front ++ '\n' :: more)
      obtain ⟨first, others, splitFront, wholeFront⟩ := splitLines_cons_of_ne feed front
      rw [ih, splitFront, List.cons_append] at split
      cases split
      rw [List.cons_append, whole, wholeFront, List.cons_append]

/-- A text that one more line feed closes is split into its lines. -/
theorem splitLines_of_closed (each : ∀ line ∈ lines, '\n' ∉ line)
    (closed : text ++ ['\n'] = unlines lines) : splitLines text = lines := by
  have split : splitLines text ++ [[]] = lines ++ [[]] := by
    rw [← splitLines_unlines each, ← closed, splitLines_append_feed]
    rfl
  exact List.append_cancel_right split

theorem exists_splitLines (text : List Char) :
    splitLines text ≠ [] ∧ (∀ line ∈ splitLines text, '\n' ∉ line) ∧
    text ++ ['\n'] = unlines (splitLines text) := by
  have closed : (text ++ ['\n']).getLast? = some '\n' := by simp
  obtain ⟨lines, filled, each, shape⟩ := exists_unlines closed
  rw [splitLines_of_closed each shape]
  exact ⟨filled, each, shape⟩

/-- A line feed ends one line and starts the next. -/
theorem firmLines_append_feed (front more : List Char) :
    firmLines (front ++ '\n' :: more) = firmLines front ++ firmLines more := by
  rw [firmLines, splitLines_append_feed, firmOf_append]
  rfl

@[simp] theorem firmLines_feed (text : List Char) : firmLines ('\n' :: text) = firmLines text :=
  firmLines_append_feed [] text

/-- The first line leads the text, and the others stand in it. -/
theorem infix_of_splitLines {first : List Char} {rest : List (List Char)}
    (split : splitLines text = first :: rest) :
    first <+: text ∧ ∀ line ∈ rest, line <:+: text := by
  induction text generalizing first rest with
  | nil =>
    rw [splitLines] at split
    cases split
    exact ⟨List.nil_prefix, by simp⟩
  | cons c text ih =>
    by_cases feed : c = '\n'
    · subst feed
      rw [splitLines_feed] at split
      cases splitRest : splitLines text with
      | nil =>
        rw [splitRest] at split
        cases split
        exact ⟨List.nil_prefix, by simp⟩
      | cons line lines =>
        obtain ⟨leads, others⟩ := ih splitRest
        rw [splitRest] at split
        cases split
        exact ⟨List.nil_prefix, List.forall_mem_cons.mpr ⟨List.infix_cons leads.isInfix, fun line member =>
          List.infix_cons (others line member)⟩⟩
    · obtain ⟨line, lines, splitRest, whole⟩ := splitLines_cons_of_ne feed text
      obtain ⟨leads, others⟩ := ih splitRest
      rw [whole] at split
      cases split
      exact ⟨List.cons_prefix_cons.mpr ⟨rfl, leads⟩, fun line member => List.infix_cons (others line member)⟩

theorem infix_of_mem_splitLines {line : List Char} (member : line ∈ splitLines text) : line <:+: text := by
  cases split : splitLines text with
  | nil =>
    rw [split] at member
    cases member
  | cons first rest =>
    obtain ⟨leads, others⟩ := infix_of_splitLines split
    rw [split] at member
    rcases List.mem_cons.mp member with rfl | later
    · exact leads.isInfix
    · exact others line later

/-- A text that is made of lines has those of them that are not blank. -/
theorem firmLines_unlines (each : ∀ line ∈ lines, '\n' ∉ line) :
    firmLines (unlines lines) = firmOf lines := by
  rw [firmLines, splitLines_unlines each, firmOf_append]
  exact List.append_nil _

/-- The last line of a text need not be closed. -/
theorem firmLines_of_closed (each : ∀ line ∈ lines, '\n' ∉ line) (closed : text ++ ['\n'] = unlines lines) :
    firmLines text = firmOf lines := by
  rw [← firmLines_unlines each, ← closed]
  exact ((firmLines_append_feed text []).trans (List.append_nil _)).symm

/-- A line of a text that is not blank stands in the text. -/
theorem infix_of_mem_firmLines {line : List Char} (member : line ∈ firmLines text) : line <:+: text := by
  obtain ⟨whole, among, _, rfl⟩ := mem_firmOf.mp member
  exact (isPrefix_trimEnd whole).isInfix.trans (infix_of_mem_splitLines among)

theorem isSolid_of_mem_splitLines {text line : List Char} (blank : ∀ c ∈ text, isBlank c)
    (member : line ∈ splitLines text) :
    isSolid line = false :=
  isSolid_eq_false.mpr fun c among => blank c ((infix_of_mem_splitLines member).subset among)

/-- A blank text has no lines that are not blank. -/
theorem firmLines_blank (text : List Char) (blank : ∀ c ∈ text, isBlank c) : firmLines text = [] :=
  firmOf_blank fun _ member => isSolid_of_mem_splitLines blank member

end Lines

section Closing

variable {body closing head rest : List Char}

/-- Every text is its end of blanks and what stands before it. -/
theorem exists_closing (text : List Char) :
    ∃ body closing, text = body ++ closing ∧ (∀ c ∈ body.getLast?, isBlank c = false) ∧
    ∀ c ∈ closing, isBlank c := by
  refine ⟨text.rdropWhile isBlank, text.rtakeWhile isBlank, List.rdropWhile_append_rtakeWhile.symm,
    fun c last => ?_,
    fun c member => List.mem_rtakeWhile_imp member⟩
  obtain ⟨filled, rfl⟩ := List.mem_getLast?_eq_getLast last
  simpa using List.rdropWhile_last_not isBlank text filled

theorem reverse_closing (solid : ∀ c ∈ body.getLast?, isBlank c = false) (blank : ∀ c ∈ closing, isBlank c) :
    (body ++ closing).reverse.takeWhile isBlank = closing.reverse ∧
    (body ++ closing).reverse.dropWhile isBlank = body.reverse := by
  have spaces : ∀ c ∈ closing.reverse, isBlank c := fun c member => blank c (List.mem_reverse.mp member)
  rw [List.reverse_append, List.takeWhile_append_of_pos spaces, List.dropWhile_append_of_pos spaces]
  cases shape : body.reverse with
  | nil => exact ⟨List.append_nil _, rfl⟩
  | cons c front =>
    have here : isBlank c = false := solid c (by rw [← List.head?_reverse, shape]; rfl)
    rw [List.takeWhile_cons_of_neg (by simp [here]), List.dropWhile_cons_of_neg (by simp [here])]
    exact ⟨List.append_nil _, rfl⟩

/-- A text is cut behind the first line feed of the blanks that it ends with. -/
theorem closeWithLineFeed_append (solid : ∀ c ∈ body.getLast?, isBlank c = false)
    (blank : ∀ c ∈ head ++ '\n' :: rest, isBlank c) (oneLine : '\n' ∉ head) :
    closeWithLineFeed (body ++ (head ++ '\n' :: rest)) = body ++ (head ++ ['\n']) := by
  have cut : (head ++ '\n' :: rest).takeWhile (· ≠ '\n') = head := by
    rw [List.takeWhile_append_of_pos fun c member => ?_, List.takeWhile_cons_of_neg (by simp),
      List.append_nil]
    exact decide_eq_true fun feed => oneLine (feed ▸ member)
  unfold closeWithLineFeed
  rw [(reverse_closing solid blank).1, (reverse_closing solid blank).2, List.reverse_reverse,
    List.reverse_reverse]
  dsimp only
  rw [cut, List.drop_left]
  cases rest with
  | nil => rfl
  | cons c rest => rw [if_pos (by simp), List.append_assoc]

/-- A text that ends with blanks but with no line feed is not cut. -/
theorem closeWithLineFeed_open (solid : ∀ c ∈ body.getLast?, isBlank c = false)
    (blank : ∀ c ∈ closing, isBlank c) (oneLine : '\n' ∉ closing) :
    closeWithLineFeed (body ++ closing) = body ++ closing := by
  have cut : closing.takeWhile (· ≠ '\n') = closing :=
    List.takeWhile_eq_self_iff.mpr fun c member => decide_eq_true fun feed => oneLine (feed ▸ member)
  unfold closeWithLineFeed
  rw [(reverse_closing solid blank).1, (reverse_closing solid blank).2, List.reverse_reverse,
    List.reverse_reverse]
  dsimp only
  rw [cut, List.drop_length, if_neg (by simp)]

/-- The blanks that a text ends with are on one line, or there is a first line feed among them. -/
theorem closing_cases (text : List Char) :
    ∃ body closing, text = body ++ closing ∧ (∀ c ∈ body.getLast?, isBlank c = false) ∧
    (∀ c ∈ closing, isBlank c) ∧
    ('\n' ∉ closing ∨ ∃ head rest, closing = head ++ '\n' :: rest ∧ '\n' ∉ head) := by
  obtain ⟨body, closing, shape, solid, blank⟩ := exists_closing text
  refine ⟨body, closing, shape, solid, blank, ?_⟩
  by_cases feed : '\n' ∈ closing
  · obtain ⟨head, rest, split, none⟩ := List.eq_append_cons_of_mem feed
    exact .inr ⟨head, rest, split, none⟩
  · exact .inl feed

end Closing

section Whole

/-- Two texts have the same lines, but for blank ones behind the first and for blanks at line ends. -/
def SameLines (a b : List Char) : Prop :=
  ∃ line other rest others, splitLines a = line :: rest ∧ splitLines b = other :: others ∧
    trimEnd line = trimEnd other ∧ firmOf rest = firmOf others

variable {a b : List Char}

theorem SameLines.firmLines (agree : SameLines a b) : firmLines a = firmLines b := by
  obtain ⟨line, other, rest, others, split, splitOther, same, sameRest⟩ := agree
  have first : firmOf [line] = firmOf [other] := by simp only [firmOf, List.map_cons, List.map_nil, same]
  rw [BlockCompiler.firmLines, BlockCompiler.firmLines, split, splitOther, firmOf_cons, first,
    sameRest, ← firmOf_cons]

theorem SameLines.cons (agree : SameLines a b) (c : Char) : SameLines (c :: a) (c :: b) := by
  by_cases feed : c = '\n'
  · subst feed
    exact ⟨[], [], _, _, splitLines_feed a, splitLines_feed b, rfl, agree.firmLines⟩
  · obtain ⟨line, other, rest, others, split, splitOther, same, sameRest⟩ := agree
    obtain ⟨_, _, splitThere, whole⟩ := splitLines_cons_of_ne feed a
    obtain ⟨_, _, splitOtherThere, wholeOther⟩ := splitLines_cons_of_ne feed b
    cases split.symm.trans splitThere
    cases splitOther.symm.trans splitOtherThere
    exact ⟨_, _, _, _, whole, wholeOther, by rw [trimEnd_cons, trimEnd_cons, same], sameRest⟩

theorem sameLines_nil : SameLines [] [] := ⟨[], [], [], [], rfl, rfl, rfl, rfl⟩

/-- A line feed more at the start of a text that starts with one is only one more blank line. -/
theorem SameLines.feed (agree : SameLines a ('\n' :: b)) : SameLines a ('\n' :: '\n' :: b) := by
  obtain ⟨line, other, rest, others, split, splitOther, same, sameRest⟩ := agree
  rw [splitLines_feed] at splitOther
  cases splitOther
  refine ⟨line, [], rest, _, split, splitLines_feed _, same, ?_⟩
  rw [splitLines_feed, sameRest]
  rfl

theorem sameLines_collapseBlankLines (text : List Char) : SameLines (collapseBlankLines text) text := by
  induction text using collapseBlankLines.induct with
  | case1 => exact sameLines_nil
  | case2 rest ih =>
    rw [collapseBlankLines.eq_2]
    exact ih.feed
  | case3 c rest more ih =>
    rw [collapseBlankLines.eq_3 _ _ more]
    exact ih.cons c

/-- A first line that is left with nothing but spaces before its line feed. -/
theorem trimEnd_of_ending {line : List Char} {lines : List (List Char)}
    (ending : (a.dropWhile isSpaceOrTab).head? = some '\n') (split : splitLines a = line :: lines) :
    trimEnd line = [] := by
  induction a generalizing line lines with
  | nil => cases ending
  | cons c rest ih =>
    by_cases space : isSpaceOrTab c
    · rw [List.dropWhile_cons_of_pos space] at ending
      have differs : c ≠ '\n' := by
        rintro rfl
        cases space
      obtain ⟨_, _, below, whole⟩ := splitLines_cons_of_ne differs rest
      cases split.symm.trans whole
      have none := ih ending below
      rw [trimEnd_cons, if_pos ⟨space, none⟩]
    · rw [List.dropWhile_cons_of_neg space, List.head?_cons, Option.some.injEq] at ending
      subst ending
      rw [splitLines_feed] at split
      cases split
      rfl

theorem sameLines_trimLineEnds (text : List Char) : SameLines (trimLineEnds text) text := by
  induction text with
  | nil => exact sameLines_nil
  | cons c rest ih =>
    rw [trimLineEnds_cons]
    split_ifs with ending
    · rw [Bool.and_eq_true, decide_eq_true_eq] at ending
      obtain ⟨space, feed⟩ := ending
      have differs : c ≠ '\n' := by
        rintro rfl
        cases space
      obtain ⟨line, other, lines, others, split, splitOther, same, sameRest⟩ := ih
      obtain ⟨_, _, splitThere, whole⟩ := splitLines_cons_of_ne differs rest
      cases splitOther.symm.trans splitThere
      refine ⟨line, _, lines, _, split, whole, ?_, sameRest⟩
      have none := trimEnd_of_ending feed splitOther
      rw [same, none, trimEnd_cons, if_pos ⟨space, none⟩]
    · exact ih.cons c

theorem firmLines_dropLineFeedsAtEnd (text : List Char) :
    firmLines (dropLineFeedsAtEnd text) = firmLines text := by
  have split : text = dropLineFeedsAtEnd text ++ (text.reverse.takeWhile (· = '\n')).reverse := by
    rw [dropLineFeedsAtEnd, ← List.reverse_append, List.takeWhile_append_dropWhile, List.reverse_reverse]
  have feeds : ∀ c ∈ (text.reverse.takeWhile (· = '\n')).reverse, c = '\n' := fun c member => by
    simpa using List.all_eq_true.mp List.all_takeWhile c (List.mem_reverse.mp member)
  conv_rhs => rw [split]
  generalize (text.reverse.takeWhile (· = '\n')).reverse = closing at feeds
  cases closing with
  | nil => rw [List.append_nil]
  | cons c closing =>
    obtain ⟨rfl, others⟩ := List.forall_mem_cons.mp feeds
    rw [firmLines_append_feed,
      firmLines_blank closing fun c member => by rw [others c member]; decide, List.append_nil]

theorem firmLines_closeWithLineFeed (text : List Char) :
    firmLines (closeWithLineFeed text) = firmLines text := by
  obtain ⟨body, closing, rfl, solid, blank, none | ⟨head, rest, rfl, none⟩⟩ := closing_cases text
  · rw [closeWithLineFeed_open solid blank none]
  · have below := firmLines_blank rest fun c member => blank c (by simp [member])
    rw [closeWithLineFeed_append solid blank none, ← List.append_assoc, ← List.append_assoc,
      firmLines_append_feed,
      firmLines_append_feed, below, firmLines_nil]

theorem firmLines_dropOpeningBlankLines (text : List Char) :
    firmLines (dropOpeningBlankLines text) = firmLines text := by
  obtain ⟨front, rest, rfl, blank, whole, opens⟩ := exists_opening text
  rw [dropOpeningBlankLines_append blank whole opens]
  split_ifs with later
  · obtain ⟨lines, rfl⟩ := exists_closed whole fun empty => by simp [empty] at later
    rw [List.append_assoc, List.singleton_append, firmLines_append_feed,
      firmLines_blank lines fun c member => blank c (List.mem_append_left _ member), List.nil_append]
  · rfl

/-- Tidying a source changes no line but for blanks at its end. -/
theorem firmLines_tidy (source : String) : firmLines (tidy source).toList = firmLines source.toList := by
  rw [tidy, String.toList_ofList, (sameLines_trimLineEnds _).firmLines, firmLines_closeWithLineFeed,
    firmLines_dropOpeningBlankLines]

/-- Only spaces stand before the next line feed if nothing is left of a line without those at its end. -/
theorem ending_iff {line : List Char} (oneLine : '\n' ∉ line) (rest : List Char) :
    ((line ++ '\n' :: rest).dropWhile isSpaceOrTab).head? = some '\n' ↔ trimEnd line = [] := by
  induction line with
  | nil =>
    rw [List.nil_append, List.dropWhile_cons_of_neg (by rw [not_isSpaceOrTab_feed]; simp)]
    exact iff_of_true rfl rfl
  | cons c line ih =>
    simp only [List.mem_cons, not_or] at oneLine
    rw [List.cons_append, trimEnd_cons]
    cases space : isSpaceOrTab c with
    | true =>
      rw [List.dropWhile_cons_of_pos space]
      refine (ih oneLine.2).trans ?_
      split_ifs with both
      · exact iff_of_true both.2 rfl
      · exact iff_of_false (fun none => both ⟨rfl, none⟩) (by simp)
    | false =>
      rw [List.dropWhile_cons_of_neg (by simp [space]), if_neg (by simp)]
      exact iff_of_false (fun same => oneLine.1 (by simpa using same.symm)) (by simp)

theorem trimLineEnds_append_feed {line : List Char} (oneLine : '\n' ∉ line) (rest : List Char) :
    trimLineEnds (line ++ '\n' :: rest) = trimEnd line ++ '\n' :: trimLineEnds rest := by
  induction line with
  | nil =>
    rw [List.nil_append, trimLineEnds_cons, not_isSpaceOrTab_feed]
    rfl
  | cons c line ih =>
    simp only [List.mem_cons, not_or] at oneLine
    rw [List.cons_append, trimLineEnds_cons, trimEnd_cons, ih oneLine.2]
    simp only [Bool.and_eq_true, decide_eq_true_eq, ending_iff oneLine.2]
    split_ifs with both
    · rw [both.2]
    · rfl

/-- Where no line feed comes, no spaces stand before one. -/
theorem trimLineEnds_of_oneLine {line : List Char} (oneLine : '\n' ∉ line) : trimLineEnds line = line := by
  induction line with
  | nil => rfl
  | cons c rest ih =>
    simp only [List.mem_cons, not_or] at oneLine
    rw [trimLineEnds_cons, if_neg, ih oneLine.2]
    intro ending
    simp only [Bool.and_eq_true, decide_eq_true_eq] at ending
    exact oneLine.2 ((List.dropWhile_suffix _).subset (List.mem_of_head? ending.2))

/-- Spaces are dropped at the ends of all lines but for the last, which no line feed ends. -/
theorem trimLineEnds_unlines_append {lines : List (List Char)} {last : List Char}
    (oneLine : ∀ line ∈ lines, '\n' ∉ line) (whole : '\n' ∉ last) :
    trimLineEnds (unlines lines ++ last) = unlines (lines.map trimEnd) ++ last := by
  induction lines with
  | nil => exact trimLineEnds_of_oneLine whole
  | cons line lines ih =>
    obtain ⟨first, others⟩ := List.forall_mem_cons.mp oneLine
    rw [unlines_cons, List.append_assoc, List.cons_append, trimLineEnds_append_feed first, ih others,
      List.map_cons, unlines_cons,
      List.append_assoc, List.cons_append]

/-- Dropping the spaces before line feeds drops those at the ends of all lines. -/
theorem trimLineEnds_unlines {lines : List (List Char)} (each : ∀ line ∈ lines, '\n' ∉ line) :
    trimLineEnds (unlines lines) = unlines (lines.map trimEnd) := by
  simpa using trimLineEnds_unlines_append each List.not_mem_nil

theorem closed_closeWithLineFeed {text : List Char} (closed : text.getLast? = some '\n') :
    (closeWithLineFeed text).getLast? = some '\n' := by
  unfold closeWithLineFeed
  dsimp only
  split_ifs
  · simp
  · exact closed

theorem closed_dropOpeningBlankLines {text : List Char} (closed : text.getLast? = some '\n') :
    dropOpeningBlankLines text = [] ∨ (dropOpeningBlankLines text).getLast? = some '\n' := by
  obtain ⟨front, rest, rfl, blank, whole, opens⟩ := exists_opening text
  rw [dropOpeningBlankLines_append blank whole opens]
  split_ifs
  · cases rest with
    | nil => exact .inl rfl
    | cons c rest => exact .inr (by rwa [List.getLast?_append_of_ne_nil _ (by simp)] at closed)
  · exact .inr closed

/-- A text that is made of lines has no spaces at the ends of its lines when it is tidied. -/
theorem trimEnd_of_tidy {source : String} (closed : source.toList.getLast? = some '\n') {line : List Char}
    (member : line ∈ splitLines (tidy source).toList) : trimEnd line = line := by
  rw [tidy, String.toList_ofList] at member
  rcases closed_dropOpeningBlankLines closed with none | closed
  · rw [none] at member
    have nothing : splitLines (trimLineEnds (closeWithLineFeed [])) = [[]] := rfl
    rw [nothing, List.mem_singleton] at member
    rw [member]
    rfl
  · obtain ⟨lines, _, each, shape⟩ := exists_unlines (closed_closeWithLineFeed closed)
    have eachTrimmed : ∀ line ∈ lines.map trimEnd, '\n' ∉ line := by
      intro line among
      obtain ⟨old, inLines, rfl⟩ := List.mem_map.mp among
      exact fun feed => each old inLines ((isPrefix_trimEnd old).subset feed)
    rw [shape, trimLineEnds_unlines each, splitLines_unlines eachTrimmed] at member
    rcases List.mem_append.mp member with among | last
    · obtain ⟨old, _, rfl⟩ := List.mem_map.mp among
      exact List.rdropWhile_idempotent ..
    · rw [List.mem_singleton.mp last]
      rfl

/-- Texts with line feeds between them have the lines of all of them. -/
theorem firmLines_joinTexts {separator : String} (feeds : separator = "\n" ∨ separator = "\n\n")
    (texts : List String) :
    firmLines (joinTexts separator texts).toList = texts.flatMap fun text => firmLines text.toList := by
  induction texts with
  | nil => rfl
  | cons text texts ih =>
    cases texts with
    | nil => simp [joinTexts]
    | cons next texts =>
      rw [joinTexts, String.intercalate_cons_cons, List.flatMap_cons, ← ih]
      rcases feeds with rfl | rfl
      · simp [firmLines_append_feed, joinTexts]
      · simp [firmLines_append_feed, joinTexts]

/-- Above the code stand the lines of the definitions that import something, and then those of the others. -/
theorem firmLines_preamble (definitions : List String) :
    firmLines (preamble definitions).toList =
      (definitions.filter isImport ++ definitions.filter (!isImport ·)).flatMap fun text =>
        firmLines text.toList := by
  unfold preamble
  rw [List.partition_eq_filter_filter]
  dsimp only
  rw [String.toList_ofList, firmLines_dropLineFeedsAtEnd, (sameLines_collapseBlankLines _).firmLines,
    List.flatMap_append,
    ← firmLines_joinTexts (.inl rfl), ← firmLines_joinTexts (.inr rfl)]
  simp [firmLines_append_feed, Function.comp_def]

end Whole

end BlockCompiler

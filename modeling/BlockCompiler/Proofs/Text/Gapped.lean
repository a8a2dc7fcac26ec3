import BlockCompiler.Proofs.Text.Tidied

/-!
Spaced texts: groups of lines with blank lines between them. A text that starts and ends with something stays
as it is when blank lines are collapsed, and when it is tidied it only loses what is blank around it.
-/

namespace BlockCompiler

/-- Groups of lines with so many blank lines between each two. Groups without lines are left out. -/
def gapped (gap : Nat) : List (List (List Char)) → List (List Char)
  | [] => []
  | group :: groups =>
    if group = [] then gapped gap groups
    else if gapped gap groups = [] then group
    else group ++ (List.replicate gap [] ++ gapped gap groups)

/-- Lines of which the first and the last are not blank, and no more than so many in a row are. -/
structure Framed (most : Nat) (lines : List (List Char)) : Prop where
  first : ∃ line rest, lines = line :: rest ∧ isSolid line
  last : ∃ front line, lines = front ++ [line] ∧ isSolid line
  sparse : ∀ run, run <:+: lines → (∀ line ∈ run, isSolid line = false) → run.length ≤ most

section Framed

variable {gap most : Nat} {lines others : List (List Char)} {groups : List (List (List Char))}

/-- A run of items that fail a test does not reach over one that passes it. -/
theorem infix_of_append_cons {α : Type} {test : α → Bool} {run front rest : List α} {a : α}
    (passes : test a) (fail : ∀ b ∈ run, test b = false) (inside : run <:+: front ++ a :: rest) :
    run <:+: front ∨ run <:+: rest := by
  have outside : ∀ more, run ≠ a :: more := by
    rintro more rfl
    rw [fail a (List.mem_cons_self ..)] at passes
    cases passes
  induction front with
  | nil =>
    rcases List.infix_cons_iff.mp inside with leads | below
    · rcases List.prefix_cons_iff.mp leads with rfl | ⟨more, same, _⟩
      · exact .inl List.nil_infix
      · exact absurd same (outside more)
    · exact .inr below
  | cons b front ih =>
    rw [List.cons_append] at inside
    rcases List.infix_cons_iff.mp inside with leads | below
    · refine .inl (List.IsPrefix.isInfix ?_)
      rcases List.prefix_or_prefix_of_prefix leads
        (List.prefix_append (b :: front) (a :: rest)) with within | ⟨more, rfl⟩
      · exact within
      · -- the run would reach over the item that passes
        cases more with
        | nil => simp
        | cons c more =>
          obtain ⟨_, same⟩ := leads
          simp at same
          rw [← same.1, fail c (by simp)] at passes
          cases passes
    · exact (ih below).imp (List.infix_cons ·) id

theorem framed_of_solid (filled : lines ≠ []) (solid : ∀ line ∈ lines, isSolid line) : Framed most lines := by
  refine ⟨?_, ?_, fun run inside blank => ?_⟩
  · obtain ⟨line, rest, rfl⟩ := List.exists_cons_of_ne_nil filled
    exact ⟨line, rest, rfl, solid line (by simp)⟩
  · obtain ⟨front, line, rfl⟩ := (List.eq_nil_or_concat' lines).resolve_left filled
    exact ⟨front, line, rfl, solid line (by simp)⟩
  · cases run with
    | nil => exact Nat.zero_le _
    | cons line run =>
      have none := solid line (inside.subset (List.mem_cons_self ..))
      rw [blank line (List.mem_cons_self ..)] at none
      cases none

theorem Framed.append (first : Framed most lines) (second : Framed most others) (few : gap ≤ most) :
    Framed most (lines ++ (List.replicate gap [] ++ others)) := by
  obtain ⟨front, line, shape, solid⟩ := first.last
  obtain ⟨other, rest, shapeOther, solidOther⟩ := second.first
  refine ⟨?_, ?_, fun run inside blank => ?_⟩
  · obtain ⟨line, rest, rfl, solid⟩ := first.first
    exact ⟨line, _, rfl, solid⟩
  · obtain ⟨front, line, rfl, solid⟩ := second.last
    exact ⟨lines ++ (List.replicate gap [] ++ front), line, by simp, solid⟩
  · rw [shape, shapeOther, List.append_assoc, List.singleton_append] at inside
    rcases infix_of_append_cons solid blank inside with before | behind
    · exact first.sparse run (shape ▸ before.trans (List.prefix_append ..).isInfix) blank
    · rcases infix_of_append_cons solidOther blank behind with between | after
      · exact between.length_le.trans (by simpa using few)
      · exact second.sparse run (shapeOther ▸ after.trans (List.suffix_cons ..).isInfix) blank

/-- Spaced groups are framed if each of them is. -/
theorem framed_gapped (few : gap ≤ most) (each : ∀ group ∈ groups, group ≠ [] → Framed most group)
    (filled : gapped gap groups ≠ []) :
    Framed most (gapped gap groups) := by
  induction groups with
  | nil => exact absurd rfl filled
  | cons group groups ih =>
    obtain ⟨first, others⟩ := List.forall_mem_cons.mp each
    rw [gapped] at filled ⊢
    split_ifs at filled ⊢ with empty none
    · exact ih others filled
    · exact first empty
    · exact (first empty).append (ih others none) few

/-- Whatever is done to each line and keeps those without characters is done to the lines of each group. -/
theorem map_gapped {f : List Char → List Char} (empty : f [] = []) :
    (gapped gap groups).map f = gapped gap (groups.map (·.map f)) := by
  induction groups with
  | nil => rfl
  | cons group groups ih =>
    rw [List.map_cons, gapped, gapped, ← ih]
    simp only [List.map_eq_nil_iff]
    split_ifs
    · rfl
    · rfl
    · simp [empty]

theorem gapped_eq_nil : gapped gap groups = [] ↔ ∀ group ∈ groups, group = [] := by
  induction groups with
  | nil => simp [gapped]
  | cons group groups ih =>
    rw [gapped, List.forall_mem_cons, ← ih]
    split_ifs with empty none
    · simp [empty]
    · simp [empty]
    · simp [empty]

theorem gapped_pair (first second : List (List Char)) : gapped gap [first, second] =
    if first = [] then second else if second = [] then first
    else first ++ (List.replicate gap [] ++ second) := by
  have single : gapped gap [second] = second := by
    rw [gapped]
    split_ifs with empty none
    · exact empty.symm
    · rfl
    · exact absurd rfl none
  rw [gapped, single]

theorem mem_gapped {line : List Char} (member : line ∈ gapped gap groups) :
    line = [] ∨ ∃ group ∈ groups, line ∈ group := by
  induction groups with
  | nil => cases member
  | cons group groups ih =>
    have later : line ∈ gapped gap groups → line = [] ∨ ∃ group' ∈ group :: groups, line ∈ group' :=
      fun there =>
      (ih there).imp id fun ⟨group', among, inside⟩ => ⟨group', List.mem_cons_of_mem _ among, inside⟩
    rw [gapped] at member
    split_ifs at member with empty none
    · exact later member
    · exact .inr ⟨group, List.mem_cons_self .., member⟩
    · rcases List.mem_append.mp member with here | behind
      · exact .inr ⟨group, List.mem_cons_self .., here⟩
      · rcases List.mem_append.mp behind with between | there
        · exact .inl (List.eq_of_mem_replicate between)
        · exact later there

end Framed

section Lines

variable {text more line : List Char} {lines : List (List Char)} {most : Nat}

/-- A line in which something is not blank fills the text that starts with it. -/
theorem filled_of_isSolid (oneLine : '\n' ∉ line) (solid : isSolid line) (more : List Char) :
    Filled (line ++ more) := by
  induction line with
  | nil => cases solid
  | cons c line ih =>
    simp only [List.mem_cons, not_or] at oneLine
    refine ⟨Ne.symm oneLine.1, ?_⟩
    cases blank : isBlank c with
    | false => exact .inl rfl
    | true =>
      simp only [isSolid, List.any_cons, blank, Bool.not_true, Bool.false_or] at solid
      exact .inr (ih oneLine.2 solid)

/-- Blank lines below framed lines are cut off. -/
theorem closeWithLineFeed_framed (framed : Framed most lines) (oneLine : ∀ line ∈ lines, '\n' ∉ line)
    (below : Nat) :
    closeWithLineFeed (unlines lines ++ List.replicate below '\n') = unlines lines := by
  obtain ⟨front, line, rfl, solid⟩ := framed.last
  obtain ⟨body, closing, rfl, ends, blank⟩ := exists_closing line
  have filled : body ≠ [] := by
    rintro rfl
    rw [List.nil_append, isSolid_eq_false.mpr blank] at solid
    cases solid
  have whole := oneLine (body ++ closing) (by simp)
  have shape : unlines (front ++ [body ++ closing]) = (unlines front ++ body) ++ (closing ++ ['\n']) := by
    rw [unlines_append]
    simp [unlines]
  rw [shape, List.append_assoc, List.append_assoc closing, List.singleton_append]
  refine closeWithLineFeed_append (fun c last => ends c ?_) (fun c member => ?_) fun feed =>
    whole (List.mem_append_right _ feed)
  · rwa [List.getLast?_append_of_ne_nil _ filled] at last
  · rcases List.mem_append.mp member with here | feeds
    · exact blank c here
    · rw [← List.replicate_succ] at feeds
      rw [List.eq_of_mem_replicate feeds]
      decide

/-- Framed lines with blank lines around them are tidied to themselves, but for the spaces at their ends. A
single blank line above them would stay. -/
theorem tidy_framed (framed : Framed most lines) (oneLine : ∀ line ∈ lines, '\n' ∉ line) {above : Nat}
    (notOne : above ≠ 1) (below : Nat) : trimLineEnds (closeWithLineFeed (dropOpeningBlankLines
      (List.replicate above '\n' ++ (unlines lines ++ List.replicate below '\n')))) =
      unlines (lines.map trimEnd) := by
  have filled : Filled (unlines lines ++ List.replicate below '\n') := by
    obtain ⟨line, rest, rfl, solid⟩ := framed.first
    rw [unlines_cons, List.append_assoc]
    exact filled_of_isSolid (oneLine line (by simp)) solid _
  have blank : ∀ c ∈ List.replicate above '\n', isBlank c := fun c member => by
    rw [List.eq_of_mem_replicate member]
    decide
  have whole : startsLine true (List.replicate above '\n') := by
    cases above with
    | zero => rfl
    | succ n =>
      rw [List.replicate_succ', startsLine_append]
      rfl
  rw [dropOpeningBlankLines_append blank whole (.inl filled)]
  have opened :
      (if ((List.replicate above '\n').drop 1).contains '\n' then unlines lines ++ List.replicate below '\n'
      else List.replicate above '\n' ++ (unlines lines ++ List.replicate below '\n')) =
      unlines lines ++ List.replicate below '\n' := by
    match above, notOne with
    | 0, _ => rfl
    | n + 2, _ => simp [List.replicate_succ]
  rw [opened, closeWithLineFeed_framed framed oneLine, trimLineEnds_unlines oneLine]

end Lines

section Joined

variable {text more : List Char} {most : Nat}

/-- Line feeds in a row are blank lines, of which there is one less. -/
theorem splitLines_feeds (front more : List Char) (n : Nat) :
    splitLines (front ++ (List.replicate (n + 1) '\n' ++ more)) =
    splitLines front ++ (List.replicate n [] ++ splitLines more) := by
  induction n generalizing front with
  | zero => exact splitLines_append_feed front more
  | succ n ih =>
    have first := splitLines_append_feed front (List.replicate (n + 1) '\n' ++ more)
    rw [List.replicate_succ, List.cons_append, first, ← List.nil_append (List.replicate _ _ ++ more), ih [],
      List.replicate_succ]
    rfl

/-- A text whose lines are framed neither starts nor ends with a line feed, and has no more in a row than
there may be blank lines. -/
theorem Framed.feeds (framed : Framed most (splitLines text)) :
    text.head? ≠ some '\n' ∧ text.getLast? ≠ some '\n' ∧ ¬ List.replicate (most + 2) '\n' <:+: text := by
  refine ⟨fun head => ?_, fun last => ?_, ?_⟩
  · obtain ⟨rest, rfl⟩ := List.head?_eq_some_iff.mp head
    obtain ⟨line, lines, shape, solid⟩ := framed.first
    rw [splitLines_feed] at shape
    obtain ⟨rfl, _⟩ := List.cons.inj shape
    cases solid
  · obtain ⟨front, rfl⟩ := List.getLast?_eq_some_iff.mp last
    obtain ⟨lines, line, shape, solid⟩ := framed.last
    rw [splitLines_append_feed] at shape
    obtain ⟨_, same⟩ := List.append_inj' shape rfl
    obtain rfl : [] = line := List.cons.inj same |>.1
    cases solid
  · rintro ⟨front, rest, rfl⟩
    have blank : ∀ line ∈ List.replicate (most + 1) ([] : List Char), isSolid line = false :=
      fun line member => by
      rw [List.eq_of_mem_replicate member]
      rfl
    have tooMany := framed.sparse (List.replicate (most + 1) []) ?_ blank
    · rw [List.length_replicate] at tooMany
      omega
    · rw [List.append_assoc, splitLines_feeds]
      exact ⟨_, _, List.append_assoc ..⟩

/-- Texts with line feeds between them have blank lines between theirs. -/
theorem splitLines_joinTexts {separator : String} {gap : Nat}
    (feeds : separator.toList = List.replicate (gap + 1) '\n') {texts : List String} (filled : texts ≠ []) :
    splitLines (joinTexts separator texts).toList =
    gapped gap (texts.map fun text => splitLines text.toList) := by
  induction texts with
  | nil => exact absurd rfl filled
  | cons text texts ih =>
    have own := (exists_splitLines text.toList).1
    rw [List.map_cons, gapped, if_neg own]
    cases texts with
    | nil => simp [joinTexts, gapped]
    | cons next texts =>
      have below := ih (by simp)
      rw [← below, if_neg (exists_splitLines _).1, joinTexts, String.intercalate_cons_cons, ← joinTexts,
        String.toList_append,
        String.toList_append, feeds, List.append_assoc, splitLines_feeds]

theorem gapped_zero (groups : List (List (List Char))) : gapped 0 groups = groups.flatten := by
  induction groups with
  | nil => rfl
  | cons group groups ih =>
    rw [gapped, ih, List.flatten_cons]
    split_ifs with empty none
    · rw [empty, List.nil_append]
    · rw [none, List.append_nil]
    · rfl

theorem Framed.ne_nil (framed : Framed most (splitLines text)) : text ≠ [] := by
  rintro rfl
  obtain ⟨line, lines, shape, solid⟩ := framed.first
  obtain ⟨rfl, _⟩ := List.cons.inj shape
  cases solid

/-- Nor does what ends with such a text end with a line feed. -/
theorem Framed.not_closed (framed : Framed most (splitLines text)) (front : List Char) :
    (front ++ text).getLast? ≠ some '\n' := by
  rw [List.getLast?_append_of_ne_nil _ framed.ne_nil]
  exact framed.feeds.2.1

/-- What has no three line feeds in a row is not collapsed. -/
theorem collapseBlankLines_few (few : ¬ List.replicate 3 '\n' <:+: text) (ends : text.getLast? ≠ some '\n') :
    collapseBlankLines (text ++ more) = text ++ collapseBlankLines more := by
  induction text with
  | nil => rfl
  | cons c text ih =>
    have later : text.getLast? ≠ some '\n' := by
      cases text with
      | nil => simp
      | cons d text => rwa [List.getLast?_cons_cons] at ends
    rw [List.cons_append, collapseBlankLines_cons, if_neg,
      ih (fun inside => few (List.infix_cons inside)) later, List.cons_append]
    rintro ⟨rfl, leads⟩
    match text, few, ends, leads with
    | [], _, ends, _ => exact ends rfl
    | [d], _, ends, leads =>
      obtain rfl : d = '\n' := by simpa [eq_comm] using (List.cons_prefix_cons.mp leads).1
      exact ends rfl
    | d :: e :: text, few, _, leads =>
      simp only [List.cons_append, List.cons_prefix_cons, List.nil_prefix, and_true] at leads
      obtain ⟨rfl, rfl⟩ := leads
      exact few ⟨[], text, rfl⟩

/-- Two framed texts stay as they are with a blank line between them. -/
theorem collapseBlankLines_between (first : text = [] ∨ Framed 1 (splitLines text))
    (second : more = [] ∨ Framed 1 (splitLines more)) :
    collapseBlankLines (text ++ '\n' :: '\n' :: more) = text ++ '\n' :: '\n' :: more := by
  have below : collapseBlankLines ('\n' :: '\n' :: more) = '\n' :: '\n' :: more := by
    rcases second with rfl | framed
    · rfl
    · obtain ⟨head, last, few⟩ := framed.feeds
      have whole : collapseBlankLines (more ++ []) = more ++ collapseBlankLines [] :=
        collapseBlankLines_few few last
      rw [List.append_nil, collapseBlankLines, List.append_nil] at whole
      rw [collapseBlankLines_cons, if_neg, collapseBlankLines_cons, if_neg, whole]
      · rintro ⟨_, ⟨rest, rfl⟩⟩
        exact head rfl
      · rintro ⟨_, ⟨rest, shape⟩⟩
        rw [(List.cons.inj shape).2.symm] at head
        exact head rfl
  rcases first with rfl | framed
  · exact below
  · obtain ⟨_, last, few⟩ := framed.feeds
    rw [collapseBlankLines_few few last, below]

theorem dropLineFeedsAtEnd_append (ends : text.getLast? ≠ some '\n') (n : Nat) :
    dropLineFeedsAtEnd (text ++ List.replicate n '\n') = text := by
  have feeds : ∀ c ∈ (List.replicate n '\n').reverse, decide (c = '\n') := fun c member => by
    simpa using List.eq_of_mem_replicate (List.mem_reverse.mp member)
  rw [dropLineFeedsAtEnd, List.reverse_append, List.dropWhile_append_of_pos feeds]
  cases shape : text.reverse with
  | nil => exact (List.reverse_eq_nil_iff.mp shape).symm
  | cons c rest =>
    have other : c ≠ '\n' := by
      rintro rfl
      exact ends (by rw [← List.head?_reverse, shape]; rfl)
    rw [List.dropWhile_cons_of_neg (by simpa using other), ← shape, List.reverse_reverse]

/-- Two texts with a blank line between them, without the line feeds at the end. -/
theorem dropLineFeedsAtEnd_between (first : text = [] ∨ Framed 1 (splitLines text))
    (second : more = [] ∨ Framed 1 (splitLines more)) :
    dropLineFeedsAtEnd (collapseBlankLines (text ++ '\n' :: '\n' :: more)) =
      if more = [] then text else text ++ '\n' :: '\n' :: more := by
  rw [collapseBlankLines_between first second]
  split_ifs with none
  · have ends : text.getLast? ≠ some '\n' := by
      rcases first with rfl | framed
      · simp
      · exact framed.not_closed []
    rw [none]
    exact dropLineFeedsAtEnd_append ends 2
  · have ends := (second.resolve_left none).not_closed (text ++ ['\n', '\n'])
    rw [List.append_assoc] at ends
    simpa using dropLineFeedsAtEnd_append ends 0

end Joined

end BlockCompiler

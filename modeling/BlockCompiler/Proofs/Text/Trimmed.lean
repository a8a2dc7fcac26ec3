import BlockCompiler.Proofs.Text.Commented
import Mathlib.Data.List.TakeWhile

/-!
Trimming texts with and without comments: the blank lines and blanks that are dropped are the same in both.
-/

namespace BlockCompiler

variable {extra start : Bool} {a b : List Char}

section LineEnds

theorem trimLineEnds_cons (c : Char) (rest : List Char) : trimLineEnds (c :: rest) =
    if isSpaceOrTab c && (rest.dropWhile isSpaceOrTab).head? = some '\n' then trimLineEnds rest
    else c :: trimLineEnds rest := by
  rw [trimLineEnds]

theorem isBlank_of_isSpaceOrTab {c : Char} (space : isSpaceOrTab c) : isBlank c := by
  simp only [isSpaceOrTab, Bool.or_eq_true, decide_eq_true_eq] at space
  rcases space with rfl | rfl <;> decide

theorem not_isSpaceOrTab_feed : isSpaceOrTab '\n' = false := by decide

/-- Spaces that end a line stand before no filled line. -/
theorem Filled.not_ending {text : List Char} (filled : Filled text) :
    (text.dropWhile isSpaceOrTab).head? ≠ some '\n' := by
  induction text with
  | nil => exact filled.elim
  | cons c rest ih =>
    by_cases space : isSpaceOrTab c
    · rw [List.dropWhile_cons_of_pos space]
      refine ih (filled.2.resolve_left ?_)
      rw [isBlank_of_isSpaceOrTab space]
      decide
    · rw [List.dropWhile_cons_of_neg space, List.head?_cons]
      exact fun same => filled.1 (Option.some.inj same)

theorem Filled.trimLineEnds {text : List Char} (filled : Filled text) : Filled (trimLineEnds text) := by
  induction text with
  | nil => exact filled.elim
  | cons c rest ih =>
    rw [trimLineEnds_cons, if_neg]
    · exact ⟨filled.1, filled.2.imp id ih⟩
    · intro ending
      simp only [Bool.and_eq_true, decide_eq_true_eq] at ending
      rcases filled.2 with solid | later
      · rw [isBlank_of_isSpaceOrTab ending.1] at solid
        cases solid
      · exact later.not_ending ending.2

/-- Within a line, the two texts have the same blanks up to its end. -/
theorem Commented.ending_iff (related : Commented extra start a b) (within : start = false) :
    (a.dropWhile isSpaceOrTab).head? = (b.dropWhile isSpaceOrTab).head? := by
  induction related with
  | nil => rfl
  | @char _ c a b _ ih =>
    by_cases space : isSpaceOrTab c
    · rw [List.dropWhile_cons_of_pos space, List.dropWhile_cons_of_pos space]
      refine ih (decide_eq_false ?_)
      rintro rfl
      rw [not_isSpaceOrTab_feed] at space
      cases space
    · rw [List.dropWhile_cons_of_neg space, List.dropWhile_cons_of_neg space]
      rfl
  | line | swap => cases within

/-- What does not end with a space or tab is kept as it is. -/
theorem trimLineEnds_append {front : List Char} {c : Char} (oneLine : '\n' ∉ front ++ [c])
    (solid : isSpaceOrTab c = false) (rest : List Char) :
    trimLineEnds (front ++ c :: rest) = front ++ c :: trimLineEnds rest := by
  induction front with
  | nil => rw [List.nil_append, trimLineEnds_cons, solid, Bool.false_and, if_neg (by simp), List.nil_append]
  | cons d front ih =>
    simp only [List.cons_append, List.mem_cons, not_or] at oneLine
    rw [List.cons_append, trimLineEnds_cons, if_neg, ih oneLine.2, List.cons_append]
    intro ending
    simp only [Bool.and_eq_true, decide_eq_true_eq] at ending
    have inside : ∀ front : List Char, '\n' ∉ front ++ [c] →
        ((front ++ c :: rest).dropWhile isSpaceOrTab).head? ≠ some '\n' := by
      intro front
      induction front with
      | nil =>
        intro differs
        rw [List.nil_append, List.dropWhile_cons_of_neg (by simp [solid])]
        simpa [eq_comm] using differs
      | cons e front ih =>
        intro differs
        simp only [List.cons_append, List.mem_cons, not_or] at differs
        rw [List.cons_append]
        by_cases space : isSpaceOrTab e
        · rw [List.dropWhile_cons_of_pos space]
          exact ih differs.2
        · rw [List.dropWhile_cons_of_neg space, List.head?_cons]
          exact fun same => differs.1 (Option.some.inj same).symm
    exact inside front oneLine.2 ending.2

/-- A remark is kept as it is. -/
theorem IsRemark.trimLineEnds_append {line : List Char} (remark : IsRemark line) (rest : List Char) :
    BlockCompiler.trimLineEnds (line ++ rest) = line ++ BlockCompiler.trimLineEnds rest := by
  obtain ⟨c, last, solid, _⟩ := remark.solid
  obtain ⟨front, rfl⟩ := List.getLast?_eq_some_iff.mp last
  have plain : isSpaceOrTab c = false := by
    by_contra space
    rw [isBlank_of_isSpaceOrTab (by simpa using space)] at solid
    cases solid
  rw [List.append_assoc, List.singleton_append, BlockCompiler.trimLineEnds_append remark.oneLine plain,
    List.append_assoc,
    List.singleton_append]

/-- A line keeps its end when its blanks are dropped. -/
theorem exists_trimLineEnds {line : List Char} (oneLine : '\n' ∉ line) (rest : List Char) :
    ∃ trimmed, '\n' ∉ trimmed ∧
    trimLineEnds (line ++ '\n' :: rest) = trimmed ++ '\n' :: trimLineEnds rest := by
  induction line with
  | nil => exact ⟨[], by simp, by rw [List.nil_append, trimLineEnds_cons, not_isSpaceOrTab_feed]; rfl⟩
  | cons c line ih =>
    simp only [List.mem_cons, not_or] at oneLine
    obtain ⟨trimmed, none, shape⟩ := ih oneLine.2
    rw [List.cons_append, trimLineEnds_cons, shape]
    split_ifs
    · exact ⟨trimmed, none, rfl⟩
    · exact ⟨c :: trimmed, by simpa using ⟨oneLine.1, none⟩, rfl⟩

theorem Commented.trimLineEnds (related : Commented extra start a b) :
    Commented extra start (trimLineEnds a) (trimLineEnds b) := by
  induction related with
  | nil => exact refl ..
  | @char start c a b rest ih =>
    rw [trimLineEnds_cons, trimLineEnds_cons]
    cases space : isSpaceOrTab c with
    | false =>
      rw [Bool.false_and, Bool.false_and, if_neg (by simp), if_neg (by simp)]
      exact .char ih
    | true =>
      have within : decide (c = '\n') = false := by
        refine decide_eq_false ?_
        rintro rfl
        cases space
      rw [rest.ending_iff within]
      split_ifs
      · rw [within] at ih
        exact ih.anywhere (by simp) _
      · exact .char ih
  | @line line a b allowed comment oneLine filled _ ih =>
    obtain ⟨n, words, rfl⟩ := isCommentLine_iff.mp comment
    simp only [List.mem_append, List.mem_cons, not_or] at oneLine
    obtain ⟨trimmed, none, shape⟩ := exists_trimLineEnds oneLine.2.2.2 a
    have spaces : '\n' ∉ List.replicate n ' ' := by simp
    have split : List.replicate n ' ' ++ '/' :: '/' :: words ++ '\n' :: a =
        (List.replicate n ' ' ++ ['/']) ++ '/' :: (words ++ '\n' :: a) := by simp
    rw [split, trimLineEnds_append (by simp) (by decide), shape]
    have whole : List.replicate n ' ' ++ ['/'] ++ '/' :: (trimmed ++ '\n' :: BlockCompiler.trimLineEnds a) =
        (List.replicate n ' ' ++ '/' :: '/' :: trimmed) ++ '\n' :: BlockCompiler.trimLineEnds a := by simp
    rw [whole]
    exact .line allowed (isCommentLine_iff.mpr ⟨n, trimmed, rfl⟩) (by simpa using none) filled.trimLineEnds ih
  | swap allowed remark remarkOther _ ih =>
    rw [remark.trimLineEnds_append, remarkOther.trimLineEnds_append]
    exact .swap allowed remark remarkOther ih

end LineEnds

section BlankLines

theorem collapseBlankLines_cons (c : Char) (rest : List Char) : collapseBlankLines (c :: rest) =
    if c = '\n' ∧ ['\n', '\n'] <+: rest then collapseBlankLines rest else c :: collapseBlankLines rest := by
  split_ifs with three
  · obtain ⟨rfl, more, rfl⟩ := three
    rw [List.cons_append, List.cons_append, List.nil_append, collapseBlankLines.eq_2]
  · rw [collapseBlankLines.eq_3]
    rintro more rfl rfl
    exact three ⟨rfl, more, rfl⟩

theorem not_filled_feed {rest : List Char} : ¬ Filled ('\n' :: rest) := fun filled => filled.1 rfl

/-- The two texts start with the same line feeds. -/
theorem Commented.feed_iff (related : Commented extra start a b) (n : Nat) :
    List.replicate n '\n' <+: a ↔ List.replicate n '\n' <+: b := by
  induction related generalizing n with
  | nil => rfl
  | @char _ c a b _ ih =>
    cases n with
    | zero => simp
    | succ n =>
      rw [List.replicate_succ, List.cons_prefix_cons, List.cons_prefix_cons]
      exact and_congr_right fun _ => ih n
  | @line line a b _ comment _ filled =>
    cases n with
    | zero => simp
    | succ n =>
      rw [List.replicate_succ]
      constructor
      · rintro ⟨more, shape⟩
        have starts := filled_comment comment ('\n' :: a)
        rw [← shape] at starts
        exact absurd starts not_filled_feed
      · rintro ⟨more, rfl⟩
        exact absurd filled not_filled_feed
  | swap _ remark remarkOther =>
    cases n with
    | zero => simp
    | succ n =>
      have none : ∀ {line : List Char} (rest : List Char), IsRemark line →
          ¬ List.replicate (n + 1) '\n' <+: line ++ rest := by
        rintro line rest isRemark ⟨more, shape⟩
        have starts := filled_comment isRemark.comment rest
        rw [← shape, List.replicate_succ] at starts
        exact not_filled_feed starts
      exact iff_of_false (none _ remark) (none _ remarkOther)

theorem Filled.collapseBlankLines {text : List Char} (filled : Filled text) :
    Filled (collapseBlankLines text) := by
  induction text with
  | nil => exact filled.elim
  | cons c rest ih =>
    rw [collapseBlankLines_cons, if_neg fun three => filled.1 three.1]
    exact ⟨filled.1, filled.2.imp id ih⟩

theorem collapseBlankLines_feeds {text : List Char} (feeds : ['\n'] <+: text) :
    ['\n'] <+: collapseBlankLines text := by
  induction text with
  | nil => simp at feeds
  | cons c rest ih =>
    rw [collapseBlankLines_cons]
    split_ifs with three
    · exact ih (List.IsPrefix.trans ⟨['\n'], rfl⟩ three.2)
    · rw [List.cons_prefix_cons] at feeds ⊢
      exact ⟨feeds.1, List.nil_prefix⟩

/-- What is no line feed stays. -/
theorem collapseBlankLines_append {line : List Char} (oneLine : '\n' ∉ line) (rest : List Char) :
    collapseBlankLines (line ++ rest) = line ++ collapseBlankLines rest := by
  induction line with
  | nil => rfl
  | cons c line ih =>
    simp only [List.mem_cons, not_or] at oneLine
    rw [List.cons_append, collapseBlankLines_cons, if_neg fun three => oneLine.1 three.1.symm, ih oneLine.2,
      List.cons_append]

theorem Commented.collapseBlankLines (related : Commented extra start a b) :
    Commented extra start (collapseBlankLines a) (collapseBlankLines b) := by
  induction related with
  | nil => exact refl ..
  | @char start c a b rest ih =>
    rw [collapseBlankLines_cons, collapseBlankLines_cons]
    by_cases three : c = '\n' ∧ ['\n', '\n'] <+: b
    · rw [if_pos three, if_pos ⟨three.1, (rest.feed_iff 2).mpr three.2⟩]
      refine ih.anywhere (fun _ filled => ?_) _
      obtain ⟨more, shape⟩ := collapseBlankLines_feeds (List.IsPrefix.trans ⟨['\n'], rfl⟩ three.2)
      rw [← shape] at filled
      exact not_filled_feed filled
    · rw [if_neg three, if_neg fun threeThere => three ⟨threeThere.1, (rest.feed_iff 2).mp threeThere.2⟩]
      exact .char ih
  | @line line a b allowed comment oneLine filled rest ih =>
    rw [collapseBlankLines_append oneLine, collapseBlankLines_cons, if_neg]
    · exact .line allowed comment oneLine filled.collapseBlankLines ih
    · rintro ⟨_, more, shape⟩
      have starts := rest.filled_iff.mpr filled
      rw [← shape] at starts
      exact not_filled_feed starts
  | swap allowed remark remarkOther _ ih =>
    rw [collapseBlankLines_append remark.oneLine, collapseBlankLines_append remarkOther.oneLine]
    exact .swap allowed remark remarkOther ih

end BlankLines

section Ends

/-- A trimming that changes a text only where nothing solid follows keeps texts related, for no extra comment
comes there. Whatever is not blank is solid. -/
theorem Commented.trimEnd {trim : List Char → List Char} {Solid : Char → Prop}
    (solid : ∀ c, isBlank c = false → Solid c)
    (stays : ∀ c rest, (∃ d ∈ c :: rest, Solid d) → trim (c :: rest) = c :: trim rest)
    (related : Commented extra start a b) : Commented extra start (trim a) (trim b) := by
  have kept : ∀ front c rest, (∃ d ∈ c :: rest, Solid d) →
      trim (front ++ c :: rest) = front ++ c :: trim rest := by
    intro front c rest there
    induction front with
    | nil => exact stays c rest there
    | cons e front ih =>
      obtain ⟨d, member, isSolid⟩ := there
      rw [List.cons_append, stays e _ ⟨d, List.mem_cons_of_mem _ (List.mem_append_right _ member), isSolid⟩,
        ih, List.cons_append]
  have filled : ∀ text, Filled text → Filled (trim text) := by
    intro text filled
    induction text with
    | nil => exact filled.elim
    | cons c rest ih =>
      obtain ⟨d, member, isSolid⟩ := filled.exists
      rw [stays c rest ⟨d, member, solid d isSolid⟩]
      exact ⟨filled.1, filled.2.imp id ih⟩
  induction related with
  | nil => exact refl ..
  | @char start c a b rest ih =>
    by_cases more : ∃ d ∈ c :: b, Solid d
    · have whole : Commented extra start (c :: a) (c :: b) := .char rest
      rw [stays c b more, stays c a (whole.exists_solid solid more)]
      exact .char ih
    · have same : a = b := by
        refine rest.eq_of_blank fun d member => ?_
        by_contra filled
        exact more ⟨d, List.mem_cons_of_mem _ member, solid d (by simpa using filled)⟩
      rw [same]
      exact refl ..
  | @line line a b allowed comment oneLine filledThere rest ih =>
    obtain ⟨d, member, isSolid⟩ := (rest.filled_iff.mpr filledThere).exists
    rw [kept line '\n' a ⟨d, List.mem_cons_of_mem _ member, solid d isSolid⟩]
    exact .line allowed comment oneLine (filled _ filledThere) ih
  | @swap line other a b allowed remark remarkOther rest ih =>
    have whole : ∀ {line : List Char} (more : List Char), IsRemark line →
        trim (line ++ more) = line ++ trim more := by
      intro line more isRemark
      obtain ⟨c, ends, filledThere, _⟩ := isRemark.solid
      obtain ⟨front, rfl⟩ := List.getLast?_eq_some_iff.mp ends
      rw [List.append_assoc, List.singleton_append,
        kept front c more ⟨c, List.mem_cons_self .., solid c filledThere⟩,
        List.append_assoc, List.singleton_append]
    rw [whole a remark, whole b remarkOther]
    exact .swap allowed remark remarkOther ih

/-- What is dropped at the end of a text does not reach a character in front that is to stay. -/
theorem rdropWhile_cons {p : Char → Bool} {c : Char} {rest : List Char}
    (stays : p c = false ∨ ∃ d ∈ rest, p d = false) :
    ((c :: rest).reverse.dropWhile p).reverse = c :: (rest.reverse.dropWhile p).reverse := by
  rw [List.reverse_cons, List.dropWhile_append]
  split_ifs with none
  · have all : ∀ d ∈ rest, p d := by
      simpa [List.dropWhile_eq_nil_iff] using none
    have here : p c = false := by
      refine stays.resolve_right ?_
      rintro ⟨d, member, kept⟩
      rw [all d member] at kept
      cases kept
    rw [List.dropWhile_cons_of_neg (by simp [here]), List.isEmpty_iff.mp none]
    rfl
  · simp

theorem rtakeWhile_cons {p : Char → Bool} {c : Char} {rest : List Char} (stays : ∃ d ∈ rest, p d = false) :
    ((c :: rest).reverse.takeWhile p).reverse = (rest.reverse.takeWhile p).reverse := by
  rw [List.reverse_cons, List.takeWhile_append, if_neg]
  intro whole
  obtain ⟨d, member, kept⟩ := stays
  have all : rest.reverse.takeWhile p = rest.reverse := (List.takeWhile_prefix p).eq_of_length whole
  rw [List.takeWhile_eq_self_iff] at all
  rw [all d (List.mem_reverse.mpr member)] at kept
  cases kept

theorem Commented.dropLineFeedsAtEnd (related : Commented extra start a b) :
    Commented extra start (dropLineFeedsAtEnd a) (dropLineFeedsAtEnd b) := by
  have stays : ∀ c : Char, ∀ rest : List Char, (∃ d ∈ c :: rest, d ≠ '\n') →
      BlockCompiler.dropLineFeedsAtEnd (c :: rest) = c :: BlockCompiler.dropLineFeedsAtEnd rest := by
    rintro c rest ⟨d, member, differs⟩
    refine rdropWhile_cons ?_
    rcases List.mem_cons.mp member with rfl | later
    · exact .inl (decide_eq_false differs)
    · exact .inr ⟨d, later, decide_eq_false differs⟩
  refine @Commented.trimEnd extra start a b _ (· ≠ '\n') ?_ stays related
  rintro c filled rfl
  cases filled

theorem Commented.closeWithLineFeed (related : Commented extra start a b) :
    Commented extra start (closeWithLineFeed a) (closeWithLineFeed b) := by
  refine @Commented.trimEnd extra start a b _ (fun c => isBlank c = false) (fun _ solid => solid) ?_ related
  rintro c rest ⟨d, member, solid⟩
  unfold BlockCompiler.closeWithLineFeed
  by_cases more : ∃ d ∈ rest, isBlank d = false
  · rw [rdropWhile_cons (.inr more), rtakeWhile_cons more]
    dsimp only
    split_ifs <;> rfl
  · -- all blanks that close the text stand behind its last character
    have all : ∀ d ∈ rest.reverse, isBlank d := fun d member => by
      simpa using fun plain => more ⟨d, List.mem_reverse.mp member, plain⟩
    have here : isBlank c = false := by
      rcases List.mem_cons.mp member with rfl | later
      · exact solid
      · exact absurd ⟨d, later, solid⟩ more
    rw [List.reverse_cons, List.takeWhile_append_of_pos all, List.dropWhile_append_of_pos all,
      List.takeWhile_eq_self_iff.mpr all,
      List.dropWhile_eq_nil_iff.mpr all, List.takeWhile_cons_of_neg (by simp [here]),
      List.dropWhile_cons_of_neg (by simp [here])]
    dsimp only
    rw [List.append_nil, List.reverse_reverse]
    split_ifs <;> rfl

end Ends

section Opening

/-- The blanks that open a text whose first line is filled or its last stand in that line. -/
theorem not_mem_opening {text : List Char} (opens : Filled text ∨ '\n' ∉ text) :
    '\n' ∉ text.takeWhile isBlank := by
  induction text with
  | nil => simp
  | cons c rest ih =>
    by_cases blank : isBlank c
    · rw [List.takeWhile_cons_of_pos blank, List.mem_cons, not_or]
      rcases opens with filled | none
      · refine ⟨fun same => filled.1 same.symm, ih (.inl (filled.2.resolve_left ?_))⟩
        rw [blank]
        decide
      · simp only [List.mem_cons, not_or] at none
        exact ⟨none.1, ih (.inr none.2)⟩
    · rw [List.takeWhile_cons_of_neg blank]
      simp

theorem lastLine_append {front line : List Char} (oneLine : '\n' ∉ line) :
    lastLine (front ++ '\n' :: line) = line := by
  rw [lastLine, List.reverse_append, List.reverse_cons, List.append_assoc, List.takeWhile_append_of_pos]
  · simp
  · intro c member
    refine decide_eq_true ?_
    rintro rfl
    exact oneLine (List.mem_reverse.mp member)

/-- Blank lines that open a text are dropped if there is a line feed in them that is not the first
character. -/
theorem dropOpeningBlankLines_append {front text : List Char} (blank : ∀ c ∈ front, isBlank c)
    (whole : startsLine true front) (opens : Filled text ∨ '\n' ∉ text) :
    dropOpeningBlankLines (front ++ text) = if (front.drop 1).contains '\n' then text else front ++ text := by
  have within := not_mem_opening opens
  unfold dropOpeningBlankLines
  rw [List.takeWhile_append_of_pos blank]
  cases front with
  | nil =>
    have none : ((text.takeWhile isBlank).drop 1).contains '\n' = false := by
      rw [List.contains_eq_mem, decide_eq_false]
      exact fun member => within (List.mem_of_mem_drop member)
    simp only [List.nil_append, none]
    rfl
  | cons c front =>
    have feeds : ((c :: front ++ text.takeWhile isBlank).drop 1).contains '\n' = front.contains '\n' := by
      simp [within]
    have own : (c :: front).drop 1 = front := rfl
    dsimp only
    rw [feeds, own]
    by_cases later : front.contains '\n'
    · rw [if_pos later, if_pos later]
      have filled : front ≠ [] := by
        rintro rfl
        cases later
      obtain ⟨others, d, rfl⟩ := (List.eq_nil_or_concat front).resolve_left filled
      rw [List.concat_eq_append] at *
      rw [← List.cons_append, startsLine_append] at whole
      obtain rfl : d = '\n' := of_decide_eq_true whole
      have shape : (c :: (others ++ ['\n']) ++ text.takeWhile isBlank).drop 1 =
          others ++ '\n' :: text.takeWhile isBlank := by simp
      rw [shape, lastLine_append within, List.dropWhile_append_of_pos blank, List.takeWhile_append_dropWhile]
    · rw [if_neg later, if_neg later]

theorem not_filled_of_blank {line : List Char} (blank : ∀ c ∈ line, isBlank c) (rest : List Char) :
    ¬ Filled (line ++ '\n' :: rest) := by
  induction line with
  | nil => exact not_filled_feed
  | cons c line ih =>
    obtain ⟨here, others⟩ := List.forall_mem_cons.mp blank
    rintro ⟨_, solid | later⟩
    · rw [here] at solid
      cases solid
    · exact ih others later

/-- A blank line is the same in both texts, and no comment stands before it. -/
theorem Commented.behind_blank {line : List Char} (blank : ∀ c ∈ line, isBlank c)
    (related : Commented extra start a (line ++ '\n' :: b)) :
    ∃ later, a = line ++ '\n' :: later ∧ Commented extra true later b := by
  induction line generalizing start a with
  | nil =>
    generalize whole : [] ++ '\n' :: b = text at related
    cases related with
    | nil => cases whole
    | char rest =>
      cases whole
      exact ⟨_, rfl, rest⟩
    | line _ _ _ filled => exact absurd (whole ▸ filled) not_filled_feed
    | swap _ _ remark => exact absurd (whole ▸ filled_comment remark.comment _) not_filled_feed
  | cons c line ih =>
    have none := not_filled_of_blank blank b
    generalize whole : c :: line ++ '\n' :: b = text at related none
    cases related with
    | nil => cases whole
    | char rest =>
      cases whole
      obtain ⟨later, rfl, below⟩ := ih (List.forall_mem_cons.mp blank).2 rest
      exact ⟨later, rfl, below⟩
    | line _ _ _ filled => exact absurd filled none
    | swap _ _ remark => exact absurd (filled_comment remark.comment _) none

/-- The blank lines that open the two texts are the same. -/
theorem Commented.exists_opening {a b : List Char} (related : Commented extra true a b) :
    ∃ front x y, a = front ++ x ∧ b = front ++ y ∧ (∀ c ∈ front, isBlank c) ∧ startsLine true front ∧
      Commented extra true x y ∧ (Filled y ∨ x = y ∧ '\n' ∉ y) := by
  by_cases filled : Filled b
  · exact ⟨[], a, b, rfl, rfl, by simp, rfl, related, .inl filled⟩
  · have blank : ∀ c ∈ b.takeWhile (· ≠ '\n'), isBlank c := by
      clear related
      induction b with
      | nil => simp
      | cons c rest ih =>
        by_cases feed : c = '\n'
        · rw [List.takeWhile_cons_of_neg (by simp [feed])]
          simp
        · rw [List.takeWhile_cons_of_pos (by simp [feed])]
          refine List.forall_mem_cons.mpr ⟨?_, ih fun later => filled ⟨feed, .inr later⟩⟩
          by_contra solid
          exact filled ⟨feed, .inl (by simpa using solid)⟩
    have split := List.takeWhile_append_dropWhile (p := (· ≠ '\n')) (l := b)
    cases rest : b.dropWhile (· ≠ '\n') with
    | nil =>
      rw [rest, List.append_nil] at split
      have oneLine : '\n' ∉ b := by
        rw [← split]
        exact fun member => by simpa using List.all_eq_true.mp List.all_takeWhile _ member
      have same := related.eq_of_blank fun c member => blank c (split.symm ▸ member)
      exact ⟨[], a, b, rfl, rfl, by simp, rfl, related, .inr ⟨same, oneLine⟩⟩
    | cons c later =>
      have feed : c = '\n' := by
        have head := List.head?_dropWhile_not (· ≠ '\n') b
        rw [rest] at head
        simpa using head
      subst feed
      rw [rest] at split
      rw [← split] at related
      obtain ⟨others, rfl, below⟩ := related.behind_blank blank
      have shorter : later.length < b.length := by
        rw [← split]
        simp
        omega
      obtain ⟨front, x, y, rfl, rfl, blankFront, whole, inner, opens⟩ := Commented.exists_opening below
      refine ⟨b.takeWhile (· ≠ '\n') ++ '\n' :: front, x, y,
        by simp, by simpa using split.symm, ?_, ?_, inner, opens⟩
      · exact List.forall_mem_append.mpr ⟨blank, List.forall_mem_cons.mpr ⟨by decide, blankFront⟩⟩
      · rw [startsLine_append]
        exact whole
termination_by b.length

theorem Commented.dropOpeningBlankLines (related : Commented extra true a b) :
    Commented extra true (dropOpeningBlankLines a) (dropOpeningBlankLines b) := by
  obtain ⟨front, x, y, rfl, rfl, blank, whole, inner, opens⟩ := related.exists_opening
  have opensOther : Filled x ∨ '\n' ∉ x := by
    rcases opens with filled | ⟨rfl, none⟩
    · exact .inl (inner.filled_iff.mpr filled)
    · exact .inr none
  rw [dropOpeningBlankLines_append blank whole opensOther,
    dropOpeningBlankLines_append blank whole (opens.imp id And.right)]
  split_ifs
  · exact inner
  · refine (refl true front).append ?_
    rw [whole]
    exact inner

/-- Every text is the blank lines that open it, and what fills its first line or stands in no line of its
own. -/
theorem exists_opening (text : List Char) : ∃ front rest, text = front ++ rest ∧ (∀ c ∈ front, isBlank c) ∧
    startsLine true front ∧ (Filled rest ∨ '\n' ∉ rest) := by
  obtain ⟨front, _, rest, _, shape, blank, whole, _, opens⟩ :=
    (@Commented.refl false true text).exists_opening
  exact ⟨front, rest, shape, blank, whole, opens.imp id And.right⟩

/-- Lines end with a line feed, if there are any. -/
theorem exists_closed {front : List Char} (whole : startsLine true front) (filled : front ≠ []) :
    ∃ lines, front = lines ++ ['\n'] := by
  obtain ⟨lines, c, rfl⟩ := (List.eq_nil_or_concat' front).resolve_left filled
  rw [startsLine_append] at whole
  exact ⟨lines, by rw [show c = '\n' from of_decide_eq_true whole]⟩

end Opening

end BlockCompiler

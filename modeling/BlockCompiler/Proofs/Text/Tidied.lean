import BlockCompiler.Proofs.Text.Firm

/-!
Tidying for all texts: what is done to a source as a whole takes nothing away but blanks, and there is nothing
left to do the second time. What one of the three steps has cut off does not come back with a later one.
-/

namespace BlockCompiler

/-- One text is another without some of its blanks. -/
inductive LosesBlanks : List Char → List Char → Prop where
  | nil : LosesBlanks [] []
  | keep (c : Char) {text shorter} (rest : LosesBlanks text shorter) : LosesBlanks (c :: text) (c :: shorter)
  | drop {c : Char} {text shorter} (blank : isBlank c) (rest : LosesBlanks text shorter) :
      LosesBlanks (c :: text) shorter

/-- A line feed stands behind nothing but blanks, of which there are some. -/
def OpensBlank (text : List Char) : Prop :=
  ∃ front rest, text = front ++ '\n' :: rest ∧ front ≠ [] ∧ ∀ c ∈ front, isBlank c

/-- A line feed stands before nothing but blanks, of which there are some. -/
def ClosesBlank (text : List Char) : Prop :=
  ∃ front rest, text = front ++ '\n' :: rest ∧ rest ≠ [] ∧ ∀ c ∈ rest, isBlank c

theorem closesBlank_iff {text : List Char} : ClosesBlank text ↔ OpensBlank text.reverse := by
  constructor
  · rintro ⟨front, rest, rfl, filled, blank⟩
    exact ⟨rest.reverse, front.reverse,
      by simp, by simpa using filled, fun c member => blank c (List.mem_reverse.mp member)⟩
  · rintro ⟨front, rest, shape, filled, blank⟩
    refine ⟨rest.reverse, front.reverse, ?_,
      by simpa using filled, fun c member => blank c (List.mem_reverse.mp member)⟩
    rw [← text.reverse_reverse, shape]
    simp

namespace LosesBlanks

variable {text shorter other more : List Char}

theorem refl (text : List Char) : LosesBlanks text text := by
  induction text with
  | nil => exact .nil
  | cons c rest ih => exact .keep c ih

theorem trans (first : LosesBlanks text shorter) (second : LosesBlanks shorter other) :
    LosesBlanks text other := by
  induction first generalizing other with
  | nil => exact second
  | keep c _ ih =>
    cases second with
    | keep _ second => exact .keep c (ih second)
    | drop blank second => exact .drop blank (ih second)
  | drop blank _ ih => exact .drop blank (ih second)

theorem append (first : LosesBlanks text shorter) (second : LosesBlanks other more) :
    LosesBlanks (text ++ other) (shorter ++ more) := by
  induction first with
  | nil => exact second
  | keep c _ ih => exact .keep c ih
  | drop blank _ ih => exact .drop blank ih

theorem reverse (loses : LosesBlanks text shorter) : LosesBlanks text.reverse shorter.reverse := by
  induction loses with
  | nil => exact .nil
  | keep c _ ih =>
    rw [List.reverse_cons, List.reverse_cons]
    exact ih.append (refl [c])
  | @drop c text shorter blank _ ih =>
    have whole := ih.append (LosesBlanks.drop blank .nil)
    rwa [List.append_nil, ← List.reverse_cons] at whole

/-- All that is lost of blanks is blank. -/
theorem of_blank (blank : ∀ c ∈ text, isBlank c) (sublist : shorter.Sublist text) :
    LosesBlanks text shorter := by
  induction sublist with
  | slnil => exact .nil
  | cons c _ ih =>
    obtain ⟨here, others⟩ := List.forall_mem_cons.mp blank
    exact .drop here (ih others)
  | cons_cons c _ ih => exact .keep c (ih (List.forall_mem_cons.mp blank).2)

/-- What is left stands in the text in this order. -/
theorem sublist (loses : LosesBlanks text shorter) : shorter.Sublist text := by
  induction loses with
  | nil => exact .slnil
  | keep c _ ih => exact ih.cons_cons c
  | drop _ _ ih => exact ih.cons _

/-- All that is not blank is left. -/
theorem filter_eq (loses : LosesBlanks text shorter) :
    shorter.filter (fun c => !isBlank c) = text.filter fun c => !isBlank c := by
  induction loses with
  | nil => rfl
  | keep c _ ih => rw [List.filter_cons, List.filter_cons, ih]
  | drop blank _ ih => rw [List.filter_cons_of_neg (by simp [blank]), ih]

/-- The blanks before a line feed were blanks before one. -/
theorem exists_blank_front (loses : LosesBlanks text shorter) {front rest : List Char}
    (shape : shorter = front ++ '\n' :: rest) (blank : ∀ c ∈ front, isBlank c) :
    ∃ whole later, text = whole ++ '\n' :: later ∧ front.length ≤ whole.length ∧ ∀ c ∈ whole, isBlank c := by
  induction loses generalizing front with
  | nil => simp at shape
  | keep c _ ih =>
    cases front with
    | nil =>
      cases shape
      exact ⟨[], _, rfl, Nat.le_refl _, by simp⟩
    | cons d front =>
      rw [List.cons_append] at shape
      obtain ⟨rfl, below⟩ := List.cons.inj shape
      obtain ⟨here, others⟩ := List.forall_mem_cons.mp blank
      obtain ⟨whole, later, rfl, long, all⟩ := ih below others
      exact ⟨c :: whole, later, rfl, Nat.succ_le_succ long, List.forall_mem_cons.mpr ⟨here, all⟩⟩
  | @drop c _ _ here _ ih =>
    obtain ⟨whole, later, rfl, long, all⟩ := ih shape blank
    exact ⟨c :: whole, later, rfl, Nat.le_succ_of_le long, List.forall_mem_cons.mpr ⟨here, all⟩⟩

/-- A text that does not open with blank lines does not when it loses blanks. -/
theorem opensBlank (loses : LosesBlanks text shorter) (opens : OpensBlank shorter) : OpensBlank text := by
  obtain ⟨front, rest, shape, filled, blank⟩ := opens
  obtain ⟨whole, later, rfl, long, all⟩ := loses.exists_blank_front shape blank
  refine ⟨whole, later, rfl, ?_, all⟩
  rintro rfl
  exact filled (List.length_eq_zero_iff.mp (Nat.le_zero.mp long))

theorem closesBlank (loses : LosesBlanks text shorter) (closes : ClosesBlank shorter) : ClosesBlank text :=
  closesBlank_iff.mpr (loses.reverse.opensBlank (closesBlank_iff.mp closes))

end LosesBlanks

section Opening

variable {text : List Char}

theorem losesBlanks_dropOpeningBlankLines (text : List Char) :
    LosesBlanks text (dropOpeningBlankLines text) := by
  obtain ⟨front, rest, rfl, blank, whole, opens⟩ := exists_opening text
  rw [dropOpeningBlankLines_append blank whole opens]
  split_ifs
  · exact LosesBlanks.append (.of_blank blank (List.nil_sublist front)) (.refl rest)
  · exact .refl _

/-- A line feed among the blanks that a text starts with, but for the first of them. -/
theorem opensBlank_iff : OpensBlank text ↔ '\n' ∈ (text.takeWhile isBlank).drop 1 := by
  constructor
  · rintro ⟨front, rest, rfl, filled, blank⟩
    cases front with
    | nil => exact absurd rfl filled
    | cons c front =>
      have feed : isBlank '\n' := by decide
      rw [List.takeWhile_append_of_pos blank, List.takeWhile_cons_of_pos feed]
      simp
  · intro member
    have split := List.takeWhile_append_dropWhile (p := isBlank) (l := text)
    have blank : ∀ c ∈ text.takeWhile isBlank, isBlank c :=
      fun c among => List.all_eq_true.mp List.all_takeWhile c among
    cases opening : text.takeWhile isBlank with
    | nil =>
      rw [opening] at member
      cases member
    | cons c opening' =>
      rw [opening] at member split blank
      obtain ⟨front, rest, rfl⟩ := List.append_of_mem member
      refine ⟨c :: front, rest ++ text.dropWhile isBlank, split.symm.trans (by simp),
        by simp, fun d among => blank d ?_⟩
      rcases List.mem_cons.mp among with rfl | inFront
      · exact List.mem_cons_self ..
      · exact List.mem_cons_of_mem _ (List.mem_append_left _ inFront)

theorem dropOpeningBlankLines_of_not (plain : ¬ OpensBlank text) : dropOpeningBlankLines text = text := by
  rw [opensBlank_iff] at plain
  unfold dropOpeningBlankLines
  dsimp only
  rw [if_neg (by simpa using plain)]

theorem not_opensBlank_dropOpeningBlankLines (text : List Char) :
    ¬ OpensBlank (dropOpeningBlankLines text) := by
  obtain ⟨front, rest, rfl, blank, whole, opens⟩ := exists_opening text
  have within := not_mem_opening opens
  rw [dropOpeningBlankLines_append blank whole opens, opensBlank_iff]
  split_ifs with later
  · exact fun member => within (List.mem_of_mem_drop member)
  · rw [List.takeWhile_append_of_pos blank, List.drop_append, List.mem_append]
    rintro (inFront | inRest)
    · exact later (List.contains_iff_mem.mpr inFront)
    · exact within (List.mem_of_mem_drop inRest)

end Opening

section Closing

variable {text body closing : List Char}

/-- A line feed among the blanks that a text ends with, but for the last of them. -/
theorem closesBlank_append (solid : ∀ c ∈ body.getLast?, isBlank c = false)
    (blank : ∀ c ∈ closing, isBlank c) :
    ClosesBlank (body ++ closing) ↔ '\n' ∈ closing.dropLast := by
  rw [closesBlank_iff, opensBlank_iff, (reverse_closing solid blank).1, List.drop_one, List.tail_reverse,
    List.mem_reverse]

theorem closeWithLineFeed_of_not (plain : ¬ ClosesBlank text) : closeWithLineFeed text = text := by
  obtain ⟨body, closing, rfl, solid, blank, none | ⟨head, rest, rfl, none⟩⟩ := closing_cases text
  · exact closeWithLineFeed_open solid blank none
  · rw [closesBlank_append solid blank] at plain
    rw [closeWithLineFeed_append solid blank none]
    cases rest with
    | nil => rfl
    | cons c rest => simp at plain

theorem not_closesBlank_closeWithLineFeed (text : List Char) : ¬ ClosesBlank (closeWithLineFeed text) := by
  obtain ⟨body, closing, rfl, solid, blank, none | ⟨head, rest, rfl, none⟩⟩ := closing_cases text
  · rw [closeWithLineFeed_open solid blank none, closesBlank_append solid blank]
    exact fun feed => none ((List.dropLast_sublist _).subset feed)
  · rw [closeWithLineFeed_append solid blank none, closesBlank_append solid, List.dropLast_concat]
    · exact none
    · exact fun c member => blank c (List.IsPrefix.subset ⟨rest, by simp⟩ member)

theorem losesBlanks_closeWithLineFeed (text : List Char) : LosesBlanks text (closeWithLineFeed text) := by
  obtain ⟨body, closing, rfl, solid, blank, none | ⟨head, rest, rfl, none⟩⟩ := closing_cases text
  · rw [closeWithLineFeed_open solid blank none]
    exact .refl _
  · rw [closeWithLineFeed_append solid blank none]
    refine .append (.refl body) (.of_blank blank ((List.Sublist.refl head).append ?_))
    exact (List.nil_sublist rest).cons_cons '\n'

end Closing

section LineEnds

theorem losesBlanks_trimLineEnds (text : List Char) : LosesBlanks text (trimLineEnds text) := by
  induction text with
  | nil => exact .nil
  | cons c rest ih =>
    rw [trimLineEnds_cons]
    split_ifs with ending
    · exact .drop (isBlank_of_isSpaceOrTab (Bool.and_eq_true _ _ ▸ ending).1) ih
    · exact .keep c ih

/-- Every text is made of lines and what stands behind the last line feed. -/
theorem exists_lines (text : List Char) :
    ∃ lines last, text = unlines lines ++ last ∧ (∀ line ∈ lines, '\n' ∉ line) ∧ '\n' ∉ last := by
  obtain ⟨filled, oneLine, shape⟩ := exists_splitLines text
  obtain ⟨lines, last, split⟩ := (List.eq_nil_or_concat' _).resolve_left filled
  rw [split] at oneLine shape
  refine ⟨lines, last, ?_, fun line member => oneLine line (List.mem_append_left _ member),
    oneLine last (by simp)⟩
  rw [unlines_append, unlines_cons, ← List.append_assoc] at shape
  exact List.append_cancel_right shape

theorem trimLineEnds_trimLineEnds (text : List Char) :
    trimLineEnds (trimLineEnds text) = trimLineEnds text := by
  obtain ⟨lines, last, rfl, oneLine, whole⟩ := exists_lines text
  rw [trimLineEnds_unlines_append oneLine whole, trimLineEnds_unlines_append ?_ whole, List.map_map]
  · congr 2
    exact List.map_congr_left fun line _ => List.rdropWhile_idempotent ..
  · intro line member
    obtain ⟨before, among, rfl⟩ := List.mem_map.mp member
    exact fun feed => oneLine before among ((isPrefix_trimEnd before).subset feed)

end LineEnds

section Tidy

/-- Tidying takes nothing away but blanks. -/
theorem losesBlanks_tidy (source : String) : LosesBlanks source.toList (tidy source).toList := by
  rw [tidy, String.toList_ofList]
  exact ((losesBlanks_dropOpeningBlankLines _).trans (losesBlanks_closeWithLineFeed _)).trans
    (losesBlanks_trimLineEnds _)

/-- What is tidy stays as it is. -/
theorem tidy_tidy (source : String) : tidy (tidy source) = tidy source := by
  have opened : LosesBlanks (dropOpeningBlankLines source.toList) (tidy source).toList := by
    rw [tidy, String.toList_ofList]
    exact (losesBlanks_closeWithLineFeed _).trans (losesBlanks_trimLineEnds _)
  have closed : LosesBlanks (closeWithLineFeed (dropOpeningBlankLines source.toList))
      (tidy source).toList := by
    rw [tidy, String.toList_ofList]
    exact losesBlanks_trimLineEnds _
  have front : dropOpeningBlankLines (tidy source).toList = (tidy source).toList :=
    dropOpeningBlankLines_of_not fun opens => not_opensBlank_dropOpeningBlankLines _ (opened.opensBlank opens)
  have back : closeWithLineFeed (tidy source).toList = (tidy source).toList :=
    closeWithLineFeed_of_not fun closes => not_closesBlank_closeWithLineFeed _ (closed.closesBlank closes)
  have ends : trimLineEnds (tidy source).toList = (tidy source).toList := by
    rw [tidy, String.toList_ofList, trimLineEnds_trimLineEnds]
  rw [tidy, front, back, ends, String.ofList_toList]

end Tidy

end BlockCompiler

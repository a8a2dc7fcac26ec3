import BlockCompiler.Emission.Source
import BlockCompiler.Proofs.Text.Lines

/-!
Texts with and without comments: one text is another one with comment lines in it, none of them before a blank
line or at the end, and with others in place of comments that it has. What is done to a text as a whole keeps
two texts in this relation.
-/

namespace BlockCompiler

/-- Whether a line is a comment, perhaps indented. -/
def isCommentLine (line : List Char) : Bool := "//".toList.isPrefixOf (line.dropWhile (· = ' '))

/-- The lines of a text that are no comments. -/
def codeLines (text : List Char) : List (List Char) :=
  (splitLines text).filter fun line => !isCommentLine line

/-- The first line of a text is not blank. -/
def Filled : List Char → Prop
  | [] => False
  | c :: rest => c ≠ '\n' ∧ (isBlank c = false ∨ Filled rest)

/-- Whether a line starts behind a text, given whether one starts before it. -/
def startsLine : (start : Bool) → List Char → Bool
  | start, [] => start
  | _, c :: rest => startsLine (c = '\n') rest

theorem startsLine_append (start : Bool) (front more : List Char) :
    startsLine start (front ++ more) = startsLine (startsLine start front) more := by
  induction front generalizing start with
  | nil => rfl
  | cons c front ih => exact ih _

/-- A comment up to a character that is neither blank nor a backslash. -/
structure IsRemark (line : List Char) : Prop where
  comment : isCommentLine line
  oneLine : '\n' ∉ line
  solid : ∃ c ∈ line.getLast?, isBlank c = false ∧ c ≠ '\\'

/-- A text is another one, where extra comment lines are allowed with these in it, or in place of those it
has. Comments stand where a line starts, and extra ones only before lines that are not blank. -/
inductive Commented (extra : Bool) : (start : Bool) → List Char → List Char → Prop
  | nil {start} : Commented extra start [] []
  | char {start c a b} (rest : Commented extra (decide (c = '\n')) a b) :
      Commented extra start (c :: a) (c :: b)
  | line {line a b} (allowed : extra = true) (comment : isCommentLine line) (oneLine : '\n' ∉ line)
      (filled : Filled b)
      (rest : Commented extra true a b) : Commented extra true (line ++ '\n' :: a) b
  | swap {line other a b} (allowed : extra = true) (remark : IsRemark line) (remarkOther : IsRemark other)
      (rest : Commented extra false a b) : Commented extra true (line ++ a) (other ++ b)

theorem isCommentLine_iff {line : List Char} :
    isCommentLine line ↔ ∃ n rest, line = List.replicate n ' ' ++ '/' :: '/' :: rest := by
  unfold isCommentLine
  constructor
  · intro comment
    obtain ⟨rest, shape⟩ := List.isPrefixOf_iff_prefix.mp comment
    refine ⟨(line.takeWhile (· = ' ')).length, rest, ?_⟩
    have spaces : line.takeWhile (· = ' ') = List.replicate (line.takeWhile (· = ' ')).length ' ' :=
      List.eq_replicate_of_mem fun c member => by simpa using List.all_eq_true.mp List.all_takeWhile c member
    rw [← spaces]
    exact (List.takeWhile_append_dropWhile (p := (· = ' '))).symm.trans (congrArg _ shape.symm)
  · rintro ⟨n, rest, rfl⟩
    simp

theorem Filled.append {text : List Char} (filled : Filled text) (more : List Char) :
    Filled (text ++ more) := by
  induction text with
  | nil => exact filled.elim
  | cons c rest ih => exact ⟨filled.1, filled.2.imp id ih⟩

theorem Filled.ne_nil {text : List Char} (filled : Filled text) : text ≠ [] := by
  rintro rfl
  exact filled

/-- A text that is filled has a character that is not blank. -/
theorem Filled.exists {text : List Char} (filled : Filled text) : ∃ c ∈ text, isBlank c = false := by
  induction text with
  | nil => exact filled.elim
  | cons c rest ih =>
    rcases filled.2 with here | later
    · exact ⟨c, List.mem_cons_self .., here⟩
    · obtain ⟨d, member, solid⟩ := ih later
      exact ⟨d, List.mem_cons_of_mem _ member, solid⟩

theorem filled_comment {line : List Char} (comment : isCommentLine line) (rest : List Char) :
    Filled (line ++ rest) := by
  obtain ⟨n, words, rfl⟩ := isCommentLine_iff.mp comment
  induction n with
  | zero => exact ⟨by decide, .inl (by decide)⟩
  | succ n ih => exact ⟨by decide, .inr (ih (isCommentLine_iff.mpr ⟨n, words, rfl⟩))⟩

theorem Filled.led {text lead : List Char} (filled : Filled text) (spaces : ∀ c ∈ lead, c = ' ') :
    Filled (lead ++ leadLaterLines lead text) := by
  have later : Filled (leadLaterLines lead text) := by
    induction text with
    | nil => exact filled.elim
    | cons c rest ih =>
      rw [leadLaterLines_cons, if_neg filled.1]
      exact ⟨filled.1, filled.2.imp id ih⟩
  clear filled
  generalize leadLaterLines lead text = body at later
  induction lead with
  | nil => exact later
  | cons c lead ih =>
    obtain ⟨rfl, others⟩ := List.forall_mem_cons.mp spaces
    exact ⟨by decide, .inr (ih others)⟩

section Remarks

variable {line lead more : List Char}

theorem isCommentLine_append (comment : isCommentLine line) (more : List Char) :
    isCommentLine (line ++ more) := by
  obtain ⟨n, words, rfl⟩ := isCommentLine_iff.mp comment
  exact isCommentLine_iff.mpr ⟨n, words ++ more, by simp⟩

theorem splitLines_append_of_not_mem {first : List Char} {later : List (List Char)} (oneLine : '\n' ∉ line)
    (split : splitLines more = first :: later) : splitLines (line ++ more) = (line ++ first) :: later := by
  induction line with
  | nil => exact split
  | cons c line ih =>
    simp only [List.mem_cons, not_or] at oneLine
    obtain ⟨_, _, shape, whole⟩ := splitLines_cons_of_ne (Ne.symm oneLine.1) (line ++ more)
    cases (ih oneLine.2).symm.trans shape
    exact whole

theorem leadLaterLines_append_of_not_mem (oneLine : '\n' ∉ line) (more : List Char) :
    leadLaterLines lead (line ++ more) = line ++ leadLaterLines lead more := by
  induction line with
  | nil => rfl
  | cons c line ih =>
    simp only [List.mem_cons, not_or] at oneLine
    rw [List.cons_append, leadLaterLines_cons, if_neg (Ne.symm oneLine.1), ih oneLine.2, List.cons_append]

/-- Behind a remark no line starts. -/
theorem IsRemark.startsLine_eq (remark : IsRemark line) (start : Bool) : startsLine start line = false := by
  obtain ⟨c, last, solid, _⟩ := remark.solid
  obtain ⟨front, rfl⟩ := List.getLast?_eq_some_iff.mp last
  rw [startsLine_append]
  refine decide_eq_false ?_
  rintro rfl
  cases solid

/-- A remark is one wherever it stands in its line. -/
theorem IsRemark.led (remark : IsRemark line) (spaces : ∀ c ∈ lead, c = ' ') : IsRemark (lead ++ line) where
  comment := by
    obtain ⟨n, words, rfl⟩ := isCommentLine_iff.mp remark.comment
    refine isCommentLine_iff.mpr ⟨lead.length + n, words, ?_⟩
    rw [List.replicate_add, List.append_assoc, ← List.eq_replicate_of_mem spaces]
  oneLine := by
    refine List.not_mem_append (fun feed => ?_) remark.oneLine
    cases spaces _ feed
  solid := by
    obtain ⟨c, last, solid⟩ := remark.solid
    exact ⟨c, by rw [List.getLast?_append, Option.mem_def.mp last]; rfl, solid⟩

end Remarks

namespace Commented

variable {extra start : Bool} {a b c d : List Char}

theorem refl (start : Bool) (text : List Char) : Commented extra start text text := by
  induction text generalizing start with
  | nil => exact .nil
  | cons c rest ih => exact .char (ih _)

/-- Where no comments are allowed, the two texts are the same. -/
theorem eq (related : Commented extra start a b) (none : extra = false) : a = b := by
  induction related with
  | nil => rfl
  | char _ ih => rw [ih]
  | line allowed | swap allowed => rw [none] at allowed; cases allowed

theorem append (related : Commented extra start a b) (others : Commented extra (startsLine start b) c d) :
    Commented extra start (a ++ c) (b ++ d) := by
  induction related with
  | nil => exact others
  | char _ ih => exact .char (ih others)
  | @line line a b allowed comment oneLine filled _ ih =>
    rw [List.append_assoc, List.cons_append]
    refine .line allowed comment oneLine (filled.append d) (ih ?_)
    exact others
  | swap allowed remark remarkOther _ ih =>
    rw [List.append_assoc, List.append_assoc]
    refine .swap allowed remark remarkOther (ih ?_)
    rwa [startsLine_append, remarkOther.startsLine_eq] at others

/-- Both texts are filled, or none of them. -/
theorem filled_iff (related : Commented extra start a b) : Filled a ↔ Filled b := by
  induction related with
  | nil => rfl
  | char _ ih => exact and_congr_right fun _ => or_congr_right ih
  | line _ comment _ filled => exact ⟨fun _ => filled, fun _ => filled_comment comment _⟩
  | swap _ remark remarkOther =>
    exact ⟨fun _ => filled_comment remarkOther.comment _, fun _ => filled_comment remark.comment _⟩

theorem nil_iff (related : Commented extra start a b) : a = [] ↔ b = [] := by
  cases related with
  | nil => rfl
  | char => simp
  | line _ _ _ filled => simp [filled.ne_nil]
  | swap _ remark remarkOther =>
    simp [(filled_comment remark.comment _).ne_nil, (filled_comment remarkOther.comment _).ne_nil]

/-- A text with comments has a solid character if the other has one. Whatever is not blank is solid. -/
theorem exists_solid {Solid : Char → Prop} (solid : ∀ c, isBlank c = false → Solid c)
    (related : Commented extra start a b) (there : ∃ c ∈ b, Solid c) : ∃ c ∈ a, Solid c := by
  induction related with
  | nil => exact there
  | char _ ih =>
    obtain ⟨d, member, isSolid⟩ := there
    rcases List.mem_cons.mp member with rfl | later
    · exact ⟨_, List.mem_cons_self .., isSolid⟩
    · obtain ⟨e, among, isSolid⟩ := ih ⟨d, later, isSolid⟩
      exact ⟨e, List.mem_cons_of_mem _ among, isSolid⟩
  | line _ comment =>
    obtain ⟨c, member, filled⟩ := (filled_comment comment _).exists
    exact ⟨c, member, solid c filled⟩
  | swap _ remark =>
    obtain ⟨c, member, filled⟩ := (filled_comment remark.comment _).exists
    exact ⟨c, member, solid c filled⟩

/-- Texts that no comment stands before are related wherever they stand. -/
theorem anywhere (related : Commented extra start a b) (first : start = true → ¬ Filled b) (other : Bool) :
    Commented extra other a b := by
  cases related with
  | nil => exact .nil
  | char rest => exact .char rest
  | line _ _ _ filled => exact absurd filled (first rfl)
  | swap _ _ remarkOther => exact absurd (filled_comment remarkOther.comment _) (first rfl)

/-- A blank text gets no comments. -/
theorem eq_of_blank (related : Commented extra start a b) (blank : ∀ c ∈ b, isBlank c) : a = b := by
  induction related with
  | nil => rfl
  | char _ ih => rw [ih fun c member => blank c (List.mem_cons_of_mem _ member)]
  | line _ _ _ filled =>
    obtain ⟨c, member, solid⟩ := filled.exists
    rw [blank c member] at solid
    cases solid
  | swap _ _ remarkOther =>
    obtain ⟨c, member, solid⟩ := (filled_comment remarkOther.comment _).exists
    rw [blank c member] at solid
    cases solid

/-- Comment lines may be put before a line that is filled. -/
theorem lines {lines : List (List Char)} (allowed : extra = true)
    (each : ∀ line ∈ lines, isCommentLine line ∧ '\n' ∉ line) (filled : Filled b)
    (related : Commented extra true a b) :
    Commented extra true (unlines lines ++ a) b := by
  induction lines with
  | nil => exact related
  | cons line rest ih =>
    obtain ⟨⟨comment, oneLine⟩, others⟩ := List.forall_mem_cons.mp each
    have shape : unlines (line :: rest) ++ a = line ++ '\n' :: (unlines rest ++ a) := by simp [unlines]
    rw [shape]
    exact .line allowed comment oneLine filled (ih others)

/-- The lines that are no comments are the same. -/
theorem codeLines_eq (related : Commented extra start a b) : codeLines a = codeLines b := by
  suffices all : codeLines a = codeLines b ∧
      (start = false → ∃ first later others, splitLines a = first :: later ∧
      splitLines b = first :: others ∧
      later.filter (fun line => !isCommentLine line) = others.filter fun line => !isCommentLine line)
      from all.1
  induction related with
  | nil => exact ⟨rfl, fun _ => ⟨[], [], [], rfl, rfl, rfl⟩⟩
  | @char start c a b _ ih =>
    by_cases feed : c = '\n'
    · subst feed
      have shape : ∀ text, splitLines ('\n' :: text) = [] :: splitLines text := fun text =>
        @splitLines_append [] (by simp) text
      simp only [codeLines, shape]
      refine ⟨?_, fun _ => ⟨[], _, _, rfl, rfl, ih.1⟩⟩
      exact congrArg ([[]] ++ ·) ih.1
    · obtain ⟨first, later, others, shape, shapeOther, same⟩ := ih.2 (by simpa using feed)
      obtain ⟨_, _, split, whole⟩ := splitLines_cons_of_ne feed a
      obtain ⟨_, _, splitOther, wholeOther⟩ := splitLines_cons_of_ne feed b
      cases split.symm.trans shape
      cases splitOther.symm.trans shapeOther
      refine ⟨?_, fun _ => ⟨_, _, _, whole, wholeOther, same⟩⟩
      rw [codeLines, codeLines, whole, wholeOther, List.filter_cons, List.filter_cons, same]
  | line _ comment oneLine _ _ ih =>
    refine ⟨?_, fun none => by cases none⟩
    rw [codeLines, splitLines_append oneLine, List.filter_cons_of_neg (by simp [comment])]
    exact ih.1
  | swap _ remark remarkOther _ ih =>
    refine ⟨?_, fun none => by cases none⟩
    obtain ⟨first, later, others, shape, shapeOther, same⟩ := ih.2 rfl
    rw [codeLines, codeLines, splitLines_append_of_not_mem remark.oneLine shape,
      splitLines_append_of_not_mem remarkOther.oneLine shapeOther,
      List.filter_cons_of_neg (by simp [isCommentLine_append remark.comment]),
      List.filter_cons_of_neg (by simp [isCommentLine_append remarkOther.comment]), same]

/-- Spaces may be put before all lines. -/
theorem led {lead : List Char} (spaces : ∀ c ∈ lead, c = ' ') (related : Commented extra start a b) :
    Commented extra start (if start then lead ++ leadLaterLines lead a else leadLaterLines lead a)
      (if start then lead ++ leadLaterLines lead b else leadLaterLines lead b) := by
  induction related with
  | @nil start => cases start <;> exact refl ..
  | @char start c a b rest ih =>
    have tail : ∀ other, Commented extra other (leadLaterLines lead (c :: a))
        (leadLaterLines lead (c :: b)) := by
      intro other
      rw [leadLaterLines_cons, leadLaterLines_cons]
      by_cases feed : c = '\n'
      · subst feed
        rw [if_pos rfl, if_pos rfl]
        refine .char ?_
        by_cases last : b = []
        · rw [if_pos (rest.nil_iff.mpr last), if_pos last]
          exact .nil
        · rw [if_neg (rest.nil_iff.not.mpr last), if_neg last]
          exact ih
      · rw [if_neg feed, if_neg feed]
        refine .char ?_
        rw [decide_eq_false feed] at ih ⊢
        exact ih
    cases start with
    | false => exact tail false
    | true => exact (refl true lead).append (tail _)
  | @line line a b allowed comment oneLine filled rest ih =>
    have more : a ≠ [] := rest.nil_iff.not.mpr filled.ne_nil
    rw [if_pos rfl, if_pos rfl, leadLaterLines_append oneLine, if_neg more, ← List.append_assoc]
    refine .line allowed ?_ (List.not_mem_append ?_ oneLine) ?_ ih
    · obtain ⟨n, words, rfl⟩ := isCommentLine_iff.mp comment
      refine isCommentLine_iff.mpr ⟨lead.length + n, words, ?_⟩
      rw [List.replicate_add, ← List.append_assoc, ← List.eq_replicate_of_mem spaces]
    · intro feed
      cases spaces _ feed
    · exact filled.led spaces
  | swap allowed remark remarkOther _ ih =>
    rw [if_pos rfl, if_pos rfl, leadLaterLines_append_of_not_mem remark.oneLine,
      leadLaterLines_append_of_not_mem remarkOther.oneLine,
      ← List.append_assoc, ← List.append_assoc]
    exact .swap allowed (remark.led spaces) (remarkOther.led spaces) ih

end Commented

end BlockCompiler

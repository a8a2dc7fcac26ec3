import BlockCompiler.Proofs.Text.Firm
import BlockCompiler.Text.Wrap
import Mathlib.Data.List.Chain

/-!
Backslashes at line ends: a line of a text, wrapped or not, ends with a backslash only if a word of the text
does. Lines that end so are joined with those below them. What the lines of a wrapped text are made of is told
by chunks.
-/

namespace BlockCompiler

/-- A word of a text ends with a backslash: behind the backslash is a blank, or nothing. -/
def BreaksOff (text : List Char) : Prop :=
  ∃ front rest, text = front ++ '\\' :: rest ∧ ∀ c ∈ rest.head?, isPlainBlank c

/-- A line ends with a backslash, and so goes on in the next one. -/
def GoesOn (line : List Char) : Prop := line.getLast? = some '\\'

instance (line : List Char) : Decidable (GoesOn line) := inferInstanceAs (Decidable (_ = _))

/-- Lines as they are read: one that ends with a backslash goes on with the next. -/
def spliced : List (List Char) → List (List Char)
  | [] => []
  | line :: rest =>
    match spliced rest with
    | [] => [line]
    | next :: later => if GoesOn line then (line.dropLast ++ next) :: later else line :: next :: later

/-- The lines of a text that are read as no comments. -/
def readLines (text : List Char) : List (List Char) :=
  (spliced (splitLines text)).filter fun line => !isCommentLine line

section Spliced

variable {lines : List (List Char)} {text : List Char}

/-- Where no line ends with a backslash, lines are read as they are. -/
theorem spliced_eq_self (none : ∀ line ∈ lines, ¬ GoesOn line) : spliced lines = lines := by
  induction lines with
  | nil => rfl
  | cons line rest ih =>
    obtain ⟨here, later⟩ := List.forall_mem_cons.mp none
    rw [spliced, ih later]
    cases rest with
    | nil => rfl
    | cons next rest =>
      dsimp only
      rw [if_neg here]

theorem readLines_eq_codeLines (none : ∀ line ∈ splitLines text, ¬ GoesOn line) :
    readLines text = codeLines text := by
  rw [readLines, spliced_eq_self none]
  rfl

theorem goesOn_append {lead line : List Char} (goesOn : GoesOn line) : GoesOn (lead ++ line) := by
  rw [GoesOn, List.getLast?_append, show line.getLast? = some '\\' from goesOn]
  rfl

/-- What stands behind a comment goes on if the whole line does. -/
theorem IsRemark.goesOn {lead line : List Char} (remark : IsRemark lead) (goesOn : GoesOn (lead ++ line)) :
    GoesOn line := by
  obtain ⟨c, last, _, plain⟩ := remark.solid
  rw [GoesOn, List.getLast?_append, Option.mem_def.mp last] at goesOn
  cases ends : line.getLast? with
  | none =>
    rw [ends, Option.none_or] at goesOn
    exact absurd (Option.some.inj goesOn) plain
  | some d =>
    rw [ends] at goesOn
    exact ends.trans goesOn

/-- Where no line of a text with comments ends with a backslash, none of the text without them does. -/
theorem Commented.not_goesOn {extra start : Bool} {a b : List Char} (related : Commented extra start a b)
    (none : ∀ line ∈ splitLines a, ¬ GoesOn line) : ∀ line ∈ splitLines b, ¬ GoesOn line := by
  suffices all : (∃ line ∈ splitLines b, GoesOn line) → ∃ line ∈ splitLines a, GoesOn line
    from fun line member goesOn => by
    obtain ⟨other, among, there⟩ := all ⟨line, member, goesOn⟩
    exact none other among there
  clear none
  -- within a line, both texts have the rest of it
  suffices both : ((∃ line ∈ splitLines b, GoesOn line) → ∃ line ∈ splitLines a, GoesOn line) ∧
      (start = false → ∃ first later others, splitLines a = first :: later ∧ splitLines b = first :: others ∧
        ((∃ line ∈ others, GoesOn line) → ∃ line ∈ later, GoesOn line)) from both.1
  have below : ∀ {first : List Char} {later others : List (List Char)},
      ((∃ line ∈ others, GoesOn line) → ∃ line ∈ later, GoesOn line) →
      (∃ line ∈ first :: others, GoesOn line) → ∃ line ∈ first :: later, GoesOn line := by
    rintro first later others same ⟨line, member, goesOn⟩
    rcases List.mem_cons.mp member with rfl | among
    · exact ⟨line, List.mem_cons_self .., goesOn⟩
    · obtain ⟨line, member, goesOn⟩ := same ⟨line, among, goesOn⟩
      exact ⟨line, List.mem_cons_of_mem _ member, goesOn⟩
  induction related with
  | nil => exact ⟨id, fun _ => ⟨[], [], [], rfl, rfl, id⟩⟩
  | @char start c a b _ ih =>
    by_cases feed : c = '\n'
    · subst feed
      rw [splitLines_feed, splitLines_feed]
      exact ⟨below ih.1, fun _ => ⟨[], _, _, rfl, rfl, ih.1⟩⟩
    · obtain ⟨first, later, others, shape, shapeOther, same⟩ := ih.2 (by simpa using feed)
      obtain ⟨_, _, split, whole⟩ := splitLines_cons_of_ne feed a
      obtain ⟨_, _, splitOther, wholeOther⟩ := splitLines_cons_of_ne feed b
      cases split.symm.trans shape
      cases splitOther.symm.trans shapeOther
      rw [whole, wholeOther]
      exact ⟨below same, fun _ => ⟨_, _, _, rfl, rfl, same⟩⟩
  | line _ _ oneLine _ _ ih =>
    refine ⟨fun there => ?_, fun none => by cases none⟩
    obtain ⟨line, member, goesOn⟩ := ih.1 there
    rw [splitLines_append oneLine]
    exact ⟨line, List.mem_cons_of_mem _ member, goesOn⟩
  | @swap line other a b _ remark remarkOther _ ih =>
    refine ⟨?_, fun none => by cases none⟩
    obtain ⟨first, later, others, shape, shapeOther, same⟩ := ih.2 rfl
    rw [splitLines_append_of_not_mem remark.oneLine shape,
      splitLines_append_of_not_mem remarkOther.oneLine shapeOther]
    rintro ⟨_, member, goesOn⟩
    rcases List.mem_cons.mp member with rfl | among
    · exact ⟨line ++ first, List.mem_cons_self .., goesOn_append (remarkOther.goesOn goesOn)⟩
    · obtain ⟨line, member, goesOn⟩ := same ⟨_, among, goesOn⟩
      exact ⟨line, List.mem_cons_of_mem _ member, goesOn⟩

end Spliced

section BreaksOff

variable {text line front rest : List Char}

theorem breaksOff_cons {c : Char} :
    BreaksOff (c :: text) ↔ (c = '\\' ∧ ∀ d ∈ text.head?, isPlainBlank d) ∨ BreaksOff text := by
  constructor
  · rintro ⟨front, rest, shape, blank⟩
    cases front with
    | nil =>
      obtain ⟨rfl, rfl⟩ := List.cons.inj shape
      exact .inl ⟨rfl, blank⟩
    | cons d front =>
      obtain ⟨rfl, rfl⟩ := List.cons.inj shape
      exact .inr ⟨front, rest, rfl, blank⟩
  · rintro (⟨rfl, blank⟩ | ⟨front, rest, rfl, blank⟩)
    · exact ⟨[], text, rfl, blank⟩
    · exact ⟨c :: front, rest, rfl, blank⟩

theorem not_breaksOff_nil : ¬ BreaksOff [] := by
  rintro ⟨front, rest, shape, _⟩
  simp at shape

/-- A word in a piece of a text is a word of the text if a blank stands behind the piece, or nothing, or if
the piece does not end with a backslash. -/
theorem BreaksOff.within (breaks : BreaksOff line) (ends : GoesOn line → ∀ c ∈ rest.head?, isPlainBlank c) :
    BreaksOff (front ++ line ++ rest) := by
  obtain ⟨before, after, rfl, blank⟩ := breaks
  refine ⟨front ++ before, after ++ rest, by simp, fun c headed => ?_⟩
  cases after with
  | nil => exact ends (by simp [GoesOn]) c headed
  | cons d after => exact blank c headed

/-- A line that ends with a backslash when the spaces at its end are dropped. -/
theorem breaksOff_of_trimEnd (ends : GoesOn (trimEnd line)) : BreaksOff line := by
  have split : trimEnd line ++ line.rtakeWhile isSpaceOrTab = line := List.rdropWhile_append_rtakeWhile
  obtain ⟨front, last⟩ := List.getLast?_eq_some_iff.mp ends
  rw [last, List.append_assoc] at split
  refine ⟨front, _, split.symm, fun c headed => ?_⟩
  have space := List.mem_rtakeWhile_imp (List.mem_of_mem_head? headed)
  simp only [isSpaceOrTab, Bool.or_eq_true, decide_eq_true_eq] at space
  rcases space with rfl | rfl <;> decide

/-- Behind the first line of a text stands a line feed, or nothing, and so does behind each other line. -/
theorem exists_of_splitLines {first : List Char} {others : List (List Char)}
    (split : splitLines text = first :: others) :
    (∃ rest, text = first ++ rest ∧ ∀ c ∈ rest.head?, c = '\n') ∧
      ∀ line ∈ others, ∃ front rest, text = front ++ line ++ rest ∧ ∀ c ∈ rest.head?, c = '\n' := by
  induction text generalizing first others with
  | nil =>
    rw [splitLines] at split
    cases split
    exact ⟨⟨[], rfl, by simp⟩, by simp⟩
  | cons c text ih =>
    by_cases feed : c = '\n'
    · subst feed
      rw [splitLines_feed] at split
      obtain ⟨rfl, rfl⟩ := List.cons.inj split
      refine ⟨⟨'\n' :: text, rfl, by simp⟩, fun line member => ?_⟩
      cases below : splitLines text with
      | nil =>
        rw [below] at member
        cases member
      | cons next later =>
        obtain ⟨⟨rest, shape, ends⟩, each⟩ := ih below
        rw [below] at member
        rcases List.mem_cons.mp member with rfl | among
        · exact ⟨['\n'], rest, by simp [shape], ends⟩
        · obtain ⟨front, rest, shape, ends⟩ := each line among
          exact ⟨'\n' :: front, rest, by simp [shape], ends⟩
    · obtain ⟨line, lines, below, whole⟩ := splitLines_cons_of_ne feed text
      obtain ⟨⟨rest, shape, ends⟩, each⟩ := ih below
      rw [whole] at split
      obtain ⟨rfl, rfl⟩ := List.cons.inj split
      refine ⟨⟨rest, by simp [shape], ends⟩, fun line member => ?_⟩
      obtain ⟨front, rest, shape, ends⟩ := each line member
      exact ⟨c :: front, rest, by simp [shape], ends⟩

/-- A word of a line is a word of the text. -/
theorem BreaksOff.of_mem_splitLines (breaks : BreaksOff line) (member : line ∈ splitLines text) :
    BreaksOff text := by
  obtain ⟨front, rest, rfl, feed⟩ :
    ∃ front rest, text = front ++ line ++ rest ∧ ∀ c ∈ rest.head?, c = '\n' := by
    cases split : splitLines text with
    | nil =>
      rw [split] at member
      cases member
    | cons first others =>
      obtain ⟨⟨rest, shape, ends⟩, each⟩ := exists_of_splitLines split
      rw [split] at member
      rcases List.mem_cons.mp member with rfl | among
      · exact ⟨[], rest, shape, ends⟩
      · exact each line among
  refine breaks.within fun _ c headed => ?_
  rw [feed c headed]
  decide

theorem intercalate_feed (text next : List Char) (rest : List (List Char)) :
    ['\n'].intercalate (text :: next :: rest) = text ++ '\n' :: ['\n'].intercalate (next :: rest) := by
  rw [List.intercalate_cons_cons, List.append_assoc, List.singleton_append]

/-- The lines of texts with line feeds between them are those of the texts, unless there are no texts. -/
theorem mem_splitLines_intercalate {texts : List (List Char)}
    (member : line ∈ splitLines (['\n'].intercalate texts)) :
    line = [] ∨ ∃ text ∈ texts, line ∈ splitLines text := by
  induction texts with
  | nil =>
    have split : splitLines (['\n'].intercalate []) = [[]] := rfl
    rw [split] at member
    exact .inl (List.mem_singleton.mp member)
  | cons text rest ih =>
    cases rest with
    | nil =>
      rw [List.intercalate_singleton] at member
      exact .inr ⟨text, List.mem_singleton_self _, member⟩
    | cons next rest =>
      rw [intercalate_feed, splitLines_append_feed, List.mem_append] at member
      rcases member with here | later
      · exact .inr ⟨text, List.mem_cons_self .., here⟩
      · exact (ih later).imp id fun ⟨text, among, inLines⟩ => ⟨text, List.mem_cons_of_mem _ among, inLines⟩

end BreaksOff

section Chunks

variable {chunks : List (List Char)} {width : Nat} {line : List Char}

/-- A space comes after a chunk that ends with none. -/
def Alternates (chunk next : List Char) : Prop := ∀ c ∈ chunk.getLast?, ∀ d ∈ next.head?, c ≠ ' ' → d = ' '

/-- The chunks of a text make up the text, none of them is empty, and spaces come between words. -/
theorem splitChunks_spec (text : List Char) :
    (splitChunks text).flatten = text ∧ (∀ chunk ∈ splitChunks text, chunk ≠ []) ∧
    (splitChunks text).IsChain Alternates := by
  induction text with
  | nil => exact ⟨rfl, by simp [splitChunks], .nil⟩
  | cons c rest ih =>
    obtain ⟨whole, filled, alternate⟩ := ih
    rw [splitChunks]
    cases chunks : splitChunks rest with
    | nil =>
      rw [chunks] at whole
      exact ⟨by simpa using whole, by simp, .singleton _⟩
    | cons chunk later =>
      rw [chunks] at whole filled alternate
      obtain ⟨filledHere, filledLater⟩ := List.forall_mem_cons.mp filled
      cases chunk with
      | nil => exact absurd rfl filledHere
      | cons d chunk =>
        dsimp only
        split_ifs with same
        · refine ⟨by simpa using whole, List.forall_mem_cons.mpr ⟨by simp, filledLater⟩, ?_⟩
          cases later with
          | nil => exact .singleton _
          | cons next later =>
            obtain ⟨first, others⟩ := List.isChain_cons_cons.mp alternate
            exact List.isChain_cons_cons.mpr
              ⟨by simpa [Alternates, List.getLast?_cons_cons] using first, others⟩
        · refine ⟨by
            simpa using whole, List.forall_mem_cons.mpr ⟨by simp, filled⟩,
              List.isChain_cons_cons.mpr ⟨?_, alternate⟩⟩
          intro e last f headed solid
          obtain rfl : c = e := by simpa using last
          obtain rfl : d = f := by simpa using headed
          by_contra other
          exact same (propext (iff_of_false solid other))

theorem takeFitting_append (room : Nat) (chunks : List (List Char)) :
    (takeFitting room chunks).1 ++ (takeFitting room chunks).2 = chunks := by
  induction chunks generalizing room with
  | nil => rfl
  | cons chunk rest ih =>
    rw [takeFitting]
    split_ifs
    · simpa using ih (room - chunk.length)
    · rfl

theorem takeLine_append (width : Nat) (chunks : List (List Char)) :
    (takeLine width chunks).1 ++ (takeLine width chunks).2 = chunks := by
  have whole := takeFitting_append width chunks
  unfold takeLine
  split
  · rename_i wide rest taken
    rw [taken] at whole
    exact whole
  · exact whole

theorem length_takeFitting (room : Nat) (chunks : List (List Char)) :
    (takeFitting room chunks).1.flatten.length ≤ room := by
  induction chunks generalizing room with
  | nil => exact Nat.zero_le room
  | cons chunk rest ih =>
    rw [takeFitting]
    split_ifs with fits
    · have below := ih (room - chunk.length)
      simp only [List.flatten_cons, List.length_append]
      omega
    · exact Nat.zero_le room

theorem takeLine_cons (width : Nat) (chunk : List Char) (rest : List (List Char)) :
    takeLine width (chunk :: rest) =
    if chunk.length ≤ width then
      (chunk :: (takeFitting (width - chunk.length) rest).1, (takeFitting (width - chunk.length) rest).2)
    else ([chunk], rest) := by
  rw [takeLine, takeFitting]
  split_ifs <;> rfl

/-- A line takes at least one chunk, and more only as far as they fit the width. -/
theorem takeLine_spec (width : Nat) (chunk : List Char) (rest : List (List Char)) :
    (takeLine width (chunk :: rest)).1 ≠ [] ∧
    ((takeLine width (chunk :: rest)).1.flatten.length ≤ width ∨
    (takeLine width (chunk :: rest)).1 = [chunk]) := by
  rw [takeLine_cons]
  split_ifs with fits
  · have more := length_takeFitting (width - chunk.length) rest
    refine ⟨by simp, .inl ?_⟩
    simp only [List.flatten_cons, List.length_append]
    omega
  · exact ⟨by simp, .inr rfl⟩

theorem exists_dropBlankHead (chunks : List (List Char)) :
    ∃ blanks, chunks = blanks ++ dropBlankHead chunks ∧ ∀ chunk ∈ blanks, chunk.all isBlank := by
  unfold dropBlankHead
  split
  · split_ifs with blank
    · exact ⟨[_], rfl, List.forall_mem_singleton.mpr blank⟩
    · exact ⟨[], rfl, by simp⟩
  · exact ⟨[], rfl, by simp⟩

theorem exists_dropBlankEnd (chunks : List (List Char)) :
    ∃ blanks, chunks = dropBlankEnd chunks ++ blanks ∧ ∀ chunk ∈ blanks, chunk.all isBlank := by
  obtain ⟨blanks, shape, areBlank⟩ := exists_dropBlankHead chunks.reverse
  refine ⟨blanks.reverse, ?_, fun chunk member => areBlank chunk (List.mem_reverse.mp member)⟩
  rw [dropBlankEnd, ← List.reverse_append, ← shape, List.reverse_reverse]

theorem dropBlankEnd_singleton (chunk : List Char) :
    dropBlankEnd [chunk] = if chunk.all isBlank then [] else [chunk] := by
  rw [dropBlankEnd, List.reverse_singleton, dropBlankHead]
  split_ifs <;> rfl

/-- Chunks fill lines of a width: blank ones are left out between the lines, and a line is made of chunks that
fit the width, or of one that is not blank. -/
inductive FillsLines (width : Nat) : List (List Char) → List (List Char) → Prop
  | nil : FillsLines width [] []
  | blank {blanks rest lines : List (List Char)} : (∀ chunk ∈ blanks, chunk.all isBlank) →
      FillsLines width rest lines →
      FillsLines width (blanks ++ rest) lines
  | line {run rest lines : List (List Char)} : run ≠ [] →
      run.flatten.length ≤ width ∨ (∃ chunk, run = [chunk] ∧ chunk.all isBlank = false) →
        FillsLines width rest lines →
      FillsLines width (run ++ rest) (run.flatten :: lines)

/-- As much fuel as there are chunks is enough to fill lines with all of them. -/
theorem fillsLines_fillLines {fuel : Nat} (enough : chunks.length ≤ fuel) (first : Bool) :
    FillsLines width chunks (fillLines width fuel first chunks) := by
  induction fuel generalizing first chunks with
  | zero =>
    obtain rfl := List.length_eq_zero_iff.mp (Nat.le_zero.mp enough)
    exact .nil
  | succ fuel ih =>
    obtain ⟨blanks, rest, starts, shape, areBlank⟩ :
        ∃ blanks rest, (if first then chunks else dropBlankHead chunks) = rest ∧
        chunks = blanks ++ rest ∧ ∀ chunk ∈ blanks, chunk.all isBlank := by
      split_ifs
      · exact ⟨[], chunks, rfl, rfl, by simp⟩
      · obtain ⟨blanks, shape, areBlank⟩ := exists_dropBlankHead chunks
        exact ⟨blanks, _, rfl, shape, areBlank⟩
    rw [fillLines, starts]
    subst shape
    refine .blank areBlank ?_
    cases rest with
    | nil => exact .nil
    | cons chunk rest =>
      dsimp only
      have taken := takeLine_append width (chunk :: rest)
      obtain ⟨some, wide⟩ := takeLine_spec width chunk rest
      generalize takeLine width (chunk :: rest) = line at taken some wide ⊢
      have fewer : line.2.length ≤ fuel := by
        have length := congrArg List.length taken
        have positive := List.length_pos_iff.mpr some
        rw [List.length_append] at length enough
        omega
      obtain ⟨ends, whole, endsBlank⟩ := exists_dropBlankEnd line.1
      have parts : chunk :: rest = dropBlankEnd line.1 ++ (ends ++ line.2) := by
        rw [← List.append_assoc, ← whole, taken]
      rw [parts]
      cases kept : dropBlankEnd line.1 with
      | nil =>
        rw [List.nil_append]
        exact .blank endsBlank (ih fewer first)
      | cons head tail =>
        refine .line (List.cons_ne_nil head tail) ?_ (.blank endsBlank (ih fewer false))
        rw [kept] at whole
        rcases wide with fits | alone
        · left
          rw [whole, List.flatten_append, List.length_append] at fits
          omega
        · right
          rw [alone, dropBlankEnd_singleton] at kept
          split_ifs at kept with blank
          exact ⟨chunk, kept.symm, by simpa using blank⟩

/-- Each line that chunks fill is made of some of them in a row. -/
theorem FillsLines.exists_run {lines : List (List Char)} (fills : FillsLines width chunks lines)
    (member : line ∈ lines) :
    ∃ front run more, chunks = front ++ run ++ more ∧ line = run.flatten := by
  induction fills with
  | nil => cases member
  | @blank blanks _ _ _ _ ih =>
    obtain ⟨front, run, more, rfl, same⟩ := ih member
    exact ⟨blanks ++ front, run, more, by simp, same⟩
  | @line first rest _ _ _ _ ih =>
    rcases List.mem_cons.mp member with rfl | later
    · exact ⟨[], first, rest, rfl, rfl⟩
    · obtain ⟨front, run, more, rfl, same⟩ := ih later
      exact ⟨first ++ front, run, more, by simp, same⟩

end Chunks

section Wrap

variable {text line : List Char}

/-- A word of a line that chunks fill is a word of what they make up. -/
theorem BreaksOff.of_mem_fills {width : Nat} {lines : List (List Char)} (breaks : BreaksOff line)
    (fills : FillsLines width (splitChunks text) lines) (member : line ∈ lines) : BreaksOff text := by
  obtain ⟨front, run, more, shape, rfl⟩ := fills.exists_run member
  obtain ⟨whole, filled, alternate⟩ := splitChunks_spec text
  rw [shape] at whole filled alternate
  rw [List.flatten_append, List.flatten_append] at whole
  rw [← whole]
  refine breaks.within fun ends c headed => ?_
  -- the run ends with a word, so that a space comes behind it
  cases more with
  | nil => cases headed
  | cons next more =>
    have filledNext := filled next (by simp)
    have headedNext : c ∈ next.head? := by
      cases next with
      | nil => exact absurd rfl filledNext
      | cons d next => simpa using headed
    obtain rfl | ⟨others, chunk, rfl⟩ := List.eq_nil_or_concat' run
    · cases ends
    · have filledChunk := filled chunk (by simp)
      have last : '\\' ∈ chunk.getLast? := by
        rw [GoesOn, List.flatten_append, List.getLast?_append] at ends
        cases inChunk : chunk.getLast? with
        | none => exact absurd (List.getLast?_eq_none_iff.mp inChunk) filledChunk
        | some d => simpa [inChunk] using ends
      have joined : Alternates chunk next := by
        rw [← List.append_assoc] at alternate
        exact (List.isChain_append.mp alternate).2.2 chunk (by simp) next (by simp)
      rw [joined '\\' last c headedNext (by decide)]
      decide

theorem BreaksOff.of_spaces {count : Nat} {rest : List Char}
    (breaks : BreaksOff (List.replicate count ' ' ++ rest)) : BreaksOff rest := by
  induction count with
  | zero => exact breaks
  | succ count ih =>
    rw [List.replicate_succ, List.cons_append, breaksOff_cons] at breaks
    exact ih (breaks.resolve_left fun here => absurd here.1 (by decide))

/-- A character that is no tab stays as tabs are expanded. -/
theorem exists_expandTabs_cons {column : Nat} {c : Char} (other : c ≠ '\t') (rest : List Char) :
    ∃ more, expandTabs column (c :: rest) = c :: more := by
  rw [expandTabs, if_neg other]
  split_ifs <;> exact ⟨_, rfl⟩

/-- Spaces in place of tabs and of other blanks end no words that no blanks have ended. -/
theorem BreaksOff.of_expandTabs {column : Nat}
    (breaks : BreaksOff ((expandTabs column text).map fun c => if isPlainBlank c then ' ' else c)) :
    BreaksOff text := by
  induction text generalizing column with
  | nil => exact absurd breaks not_breaksOff_nil
  | cons c rest ih =>
    have kept :
        ∀ column, BreaksOff ((if isPlainBlank c then ' ' else c) :: (expandTabs column rest).map fun c =>
        if isPlainBlank c then ' ' else c) →
        BreaksOff (c :: rest) := by
      intro column breaks
      rw [breaksOff_cons] at breaks ⊢
      refine breaks.imp ?_ ih
      rintro ⟨same, blank⟩
      have plain : c = '\\' := by
        split_ifs at same
        · cases same
        · exact same
      refine ⟨plain, fun d headed => ?_⟩
      cases rest with
      | nil => cases headed
      | cons e rest =>
        obtain rfl : e = d := by simpa using headed
        by_contra solid
        have differs : e ≠ '\t' := by
          rintro rfl
          exact solid (by decide)
        obtain ⟨more, shape⟩ := exists_expandTabs_cons differs rest
        rw [shape, List.map_cons, if_neg solid] at blank
        exact solid (blank e (by simp))
    rw [expandTabs] at breaks
    dsimp only at breaks
    split_ifs at breaks with tab
    · rw [List.map_append, List.map_replicate, if_pos (by decide)] at breaks
      exact breaksOff_cons.mpr (.inr (ih breaks.of_spaces))
    · exact kept 0 breaks
    · exact kept _ breaks

/-- A text with its tabs expanded, and with a space in place of each plain blank. -/
def withSpaces (text : List Char) : List Char :=
  (expandTabs 0 text).map fun c => if isPlainBlank c then ' ' else c

/-- A line that is wrapped is cut into what its chunks fill. -/
theorem exists_fillsLines (width : Nat) (line : List Char) :
    ∃ lines, FillsLines width (splitChunks (withSpaces line)) lines ∧
    wrapLine width line = ['\n'].intercalate lines :=
  ⟨_, fillsLines_fillLines (Nat.le_refl _) true, rfl⟩

/-- A line of a wrapped text, if there is something in it, is in what the chunks of a line of the text
fill. -/
theorem exists_filled_of_mem_wrap {width : Nat} {text : String}
    (member : line ∈ splitLines (wrap width text).toList) :
    line = [] ∨ ∃ old ∈ splitLines text.toList, ∃ lines,
      FillsLines width (splitChunks (withSpaces old)) lines ∧
      ∃ filled ∈ lines, line ∈ splitLines filled := by
  rw [wrap, String.toList_ofList] at member
  rcases mem_splitLines_intercalate member with empty | ⟨wrapped, among, inWrapped⟩
  · exact .inl empty
  · obtain ⟨old, inText, rfl⟩ := List.mem_map.mp among
    obtain ⟨lines, fills, shape⟩ := exists_fillsLines width old
    rw [shape] at inWrapped
    exact (mem_splitLines_intercalate inWrapped).imp id fun inLines => ⟨old, inText, lines, fills, inLines⟩

/-- A line of a wrapped text ends with a backslash only if a word of the text does. -/
theorem BreaksOff.of_mem_wrap {width : Nat} {text : String} (breaks : BreaksOff line)
    (member : line ∈ splitLines (wrap width text).toList) :
    BreaksOff text.toList := by
  rcases exists_filled_of_mem_wrap member with rfl | ⟨old, inText, lines, fills, filled, among, inFilled⟩
  · exact absurd breaks not_breaksOff_nil
  · exact (((breaks.of_mem_splitLines inFilled).of_mem_fills fills among).of_expandTabs).of_mem_splitLines
      inText

end Wrap

end BlockCompiler

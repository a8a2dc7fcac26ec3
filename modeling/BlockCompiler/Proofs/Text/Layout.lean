import BlockCompiler.Proofs.Text.Gapped

/-!
The layout of a source: the lines of definitions and of codes with blank lines between them, if there are none
in them.
-/

namespace BlockCompiler

/-- Those lines of a text that are not blank. -/
def solidLines (text : List Char) : List (List Char) := (splitLines text).filter isSolid

/-- The groups of lines above a code: the lines of all definitions that import something, and those of each
other one. -/
def definedGroups (lines : String → List (List Char)) (definitions : List String) : List (List (List Char)) :=
  (definitions.filter isImport).flatMap lines :: (definitions.filter (!isImport ·)).map lines

/-- The lines of a source: those of definitions, with a blank line between each two groups, two blank lines,
and those of codes, with a blank line between each two. -/
def laidLines (lines : String → List (List Char)) (definitions codes : List String) : List (List Char) :=
  gapped 2 [gapped 1 (definedGroups lines definitions), gapped 1 (codes.map lines)]

/-- No line of a text is blank, whether the last one is closed or not. -/
def Unbroken (text : List Char) : Prop := splitLines text = solidLines text

/-- A text is made of lines that are not blank, each of which is closed. -/
def AllSolid (text : List Char) : Prop := text = unlines (solidLines text)

section Laid

variable {definitions codes : List String} {gap most : Nat}

theorem isSolid_of_mem_solidLines {text line : List Char} (member : line ∈ solidLines text) : isSolid line :=
  (List.mem_filter.mp member).2

theorem oneLine_of_mem_solidLines {text line : List Char} (member : line ∈ solidLines text) : '\n' ∉ line :=
  (exists_splitLines text).2.1 line (List.mem_filter.mp member).1

theorem firmLines_eq_map (text : List Char) : firmLines text = (solidLines text).map trimEnd := by
  rw [firmLines, firmOf, List.filter_map, solidLines]
  congr 1
  exact List.filter_congr fun line _ => isSolid_trimEnd line

/-- Texts without blank lines that are joined with line feeds between them have the lines of all of them. -/
theorem splitLines_joined {separator : String} (feeds : separator.toList = List.replicate (gap + 1) '\n')
    {texts : List String} (unbroken : ∀ text ∈ texts, Unbroken text.toList) (filled : texts ≠ []) :
    splitLines (joinTexts separator texts).toList =
    gapped gap (texts.map fun text => solidLines text.toList) := by
  rw [splitLines_joinTexts feeds filled, List.map_congr_left unbroken]

/-- Lines that are not blank are framed with some blank lines between them. -/
theorem framed_gapped_solid {groups : List (List (List Char))} (few : gap ≤ most)
    (solid : ∀ group ∈ groups, ∀ line ∈ group, isSolid line) (filled : gapped gap groups ≠ []) :
    Framed most (gapped gap groups) :=
  framed_gapped few (fun group among filled => framed_of_solid filled (solid group among)) filled

theorem framed_joined {separator : String} (feeds : separator.toList = List.replicate (gap + 1) '\n')
    (few : gap ≤ most) {texts : List String} (unbroken : ∀ text ∈ texts, Unbroken text.toList)
    (some : texts ≠ []) : Framed most (splitLines (joinTexts separator texts).toList) := by
  have filled := (exists_splitLines (joinTexts separator texts).toList).1
  rw [splitLines_joined feeds unbroken some] at filled ⊢
  refine framed_gapped_solid few (fun group among line member => ?_) filled
  obtain ⟨text, _, rfl⟩ := List.mem_map.mp among
  exact isSolid_of_mem_solidLines member

/-- Above a code stand the lines of the definitions, unless there are none, with some blank lines above
them. -/
theorem preamble_laid (unbroken : ∀ text ∈ definitions, Unbroken text.toList) {lines : List (List Char)}
    (laid : gapped 1 (definedGroups (fun text => solidLines text.toList) definitions) = lines) :
    (lines = [] ∧ preamble definitions = "") ∨
      (lines ≠ [] ∧ ∃ above, above ≠ 1 ∧
      (preamble definitions).toList ++ ['\n'] = List.replicate above '\n' ++ unlines lines) := by
  have unbrokenImports : ∀ text ∈ definitions.filter isImport, Unbroken text.toList := fun text member =>
    unbroken text (List.mem_filter.mp member).1
  have unbrokenOthers : ∀ text ∈ definitions.filter (!isImport ·), Unbroken text.toList := fun text member =>
    unbroken text (List.mem_filter.mp member).1
  have shape : (preamble definitions).toList = dropLineFeedsAtEnd (collapseBlankLines
      ((joinTexts "\n" (definitions.filter isImport)).toList ++ '\n' :: '\n' ::
        (joinTexts "\n\n" (definitions.filter (!isImport ·))).toList)) := by
    unfold preamble
    rw [List.partition_eq_filter_filter]
    simp [Function.comp_def]
  unfold definedGroups at laid
  generalize definitions.filter isImport = imports at *
  generalize definitions.filter (!isImport ·) = others at *
  have one : "\n".toList = List.replicate (0 + 1) '\n' := rfl
  have two : "\n\n".toList = List.replicate (1 + 1) '\n' := rfl
  have linesImports := splitLines_joined one unbrokenImports
  have linesOthers := splitLines_joined two unbrokenOthers
  have framedImports := framed_joined one (Nat.zero_le 1) unbrokenImports
  have framedOthers := framed_joined two (Nat.le_refl 1) unbrokenOthers
  rw [gapped_zero, ← List.flatMap_def] at linesImports
  have whole := fun text : List Char => (exists_splitLines text).2.2
  have filled := fun text : List Char => (exists_splitLines text).1
  have nothing : ∀ separator, (joinTexts separator []).toList = [] := fun _ => rfl
  by_cases noImports : imports = [] <;> by_cases noOthers : others = []
  · subst noImports noOthers laid
    exact .inl ⟨rfl, String.toList_inj.mp (shape.trans (dropLineFeedsAtEnd_between (.inl rfl) (.inl rfl)))⟩
  · subst noImports
    rw [nothing, dropLineFeedsAtEnd_between (.inl rfl) (.inr (framedOthers noOthers)),
      if_neg (framedOthers noOthers).ne_nil] at shape
    rw [List.flatMap_nil, gapped, if_pos rfl, ← linesOthers noOthers] at laid
    rw [← laid, ← whole, shape]
    exact .inr ⟨filled _, 2, by simp, by simp⟩
  · subst noOthers
    rw [nothing, dropLineFeedsAtEnd_between (.inr (framedImports noImports)) (.inl rfl), if_pos rfl] at shape
    rw [← linesImports noImports, gapped, if_neg (filled _), if_pos (by rfl)] at laid
    rw [← laid, ← whole, shape]
    exact .inr ⟨filled _, 0, by simp, by simp⟩
  · rw [dropLineFeedsAtEnd_between (.inr (framedImports noImports)) (.inr (framedOthers noOthers)),
      if_neg (framedOthers noOthers).ne_nil] at shape
    rw [← linesImports noImports, gapped, if_neg (filled _), ← linesOthers noOthers,
      if_neg (filled _)] at laid
    rw [← laid, unlines_append, unlines_append, ← whole, ← whole, shape]
    exact .inr ⟨by simp [filled], 0, by simp, by simp [unlines]⟩

/-- Codes that are made of lines that are not blank have blank lines between them. -/
theorem joinTexts_laid (solid : ∀ code ∈ codes, AllSolid code.toList) :
    (joinTexts "\n" (codes.filter (· ≠ ""))).toList =
    unlines (gapped 1 (codes.map fun code => solidLines code.toList)) := by
  induction codes with
  | nil => rfl
  | cons code codes ih =>
    obtain ⟨here, others⟩ := List.forall_mem_cons.mp solid
    have below := ih others
    rw [List.map_cons, gapped]
    by_cases empty : code = ""
    · subst empty
      rw [List.filter_cons_of_neg (by simp), if_pos (by rfl), below]
    · have filled : solidLines code.toList ≠ [] := by
        intro none
        rw [AllSolid, none] at here
        exact empty (String.toList_inj.mp here)
      rw [List.filter_cons_of_pos (by simpa using empty), if_neg filled]
      cases more : codes.filter (· ≠ "") with
      | nil =>
        have none : gapped 1 (codes.map fun code => solidLines code.toList) = [] := by
          rw [more] at below
          exact unlines_eq_nil.mp below.symm
        rw [if_pos none, ← here]
        simp [joinTexts]
      | cons next rest =>
        have some : gapped 1 (codes.map fun code => solidLines code.toList) ≠ [] := by
          obtain ⟨among, filled⟩ :=
            List.mem_filter.mp (more ▸ List.mem_cons_self .. : next ∈ codes.filter (· ≠ ""))
          intro none
          have gone := gapped_eq_nil.mp none _ (List.mem_map_of_mem among)
          have solidNext := others next among
          rw [AllSolid, gone] at solidNext
          exact of_decide_eq_true filled (String.toList_inj.mp solidNext)
        rw [if_neg some, unlines_append, unlines_append, ← below, ← here, more, joinTexts,
          String.intercalate_cons_cons, ← joinTexts]
        simp [unlines]

/-- Whatever is done to each line is done to the lines that are laid out. -/
theorem map_laidLines {f : List Char → List Char} (empty : f [] = []) (lines : String → List (List Char))
    (definitions codes : List String) :
    (laidLines lines definitions codes).map f =
    laidLines (fun text => (lines text).map f) definitions codes := by
  simp only [laidLines, definedGroups, map_gapped empty, List.map_cons, List.map_nil, List.map_map,
    List.map_flatMap, Function.comp_def]

theorem mem_laidLines {lines : String → List (List Char)} {line : List Char}
    (member : line ∈ laidLines lines definitions codes) :
    line = [] ∨ ∃ text, line ∈ lines text := by
  rcases mem_gapped member with empty | ⟨group, among, inside⟩
  · exact .inl empty
  · simp only [List.mem_cons, List.not_mem_nil, or_false] at among
    rcases among with rfl | rfl
    · rcases mem_gapped inside with empty | ⟨group, among, inside⟩
      · exact .inl empty
      · rcases List.mem_cons.mp among with rfl | other
        · obtain ⟨text, _, inText⟩ := List.mem_flatMap.mp inside
          exact .inr ⟨text, inText⟩
        · obtain ⟨text, _, rfl⟩ := List.mem_map.mp other
          exact .inr ⟨text, inside⟩
    · rcases mem_gapped inside with empty | ⟨group, among, inside⟩
      · exact .inl empty
      · obtain ⟨text, _, rfl⟩ := List.mem_map.mp among
        exact .inr ⟨text, inside⟩

/-- The lines above a code, and so all of a source, are framed. -/
theorem framed_laidLines {lines : String → List (List Char)}
    (solid : ∀ text, ∀ line ∈ lines text, isSolid line) :
    (gapped 1 (definedGroups lines definitions) ≠ [] →
      Framed 1 (gapped 1 (definedGroups lines definitions))) ∧
      (laidLines lines definitions codes ≠ [] → Framed 2 (laidLines lines definitions codes)) := by
  have defined : ∀ group ∈ definedGroups lines definitions, ∀ line ∈ group, isSolid line := by
    intro group among line member
    rcases List.mem_cons.mp among with rfl | other
    · obtain ⟨text, _, inText⟩ := List.mem_flatMap.mp member
      exact solid text line inText
    · obtain ⟨text, _, rfl⟩ := List.mem_map.mp other
      exact solid text line member
  have coded : ∀ group ∈ codes.map lines, ∀ line ∈ group, isSolid line := by
    intro group among line member
    obtain ⟨text, _, rfl⟩ := List.mem_map.mp among
    exact solid text line member
  refine ⟨framed_gapped_solid (Nat.le_refl 1) defined,
    framed_gapped (Nat.le_refl 2) fun group among filled => ?_⟩
  simp only [List.mem_cons, List.not_mem_nil, or_false] at among
  rcases among with rfl | rfl
  · exact framed_gapped_solid (by decide) defined filled
  · exact framed_gapped_solid (by decide) coded filled

/-- Before it is tidied, a source has only some line feeds around the lines that are laid out. -/
theorem exists_around (unbroken : ∀ text ∈ definitions, Unbroken text.toList)
    (solid : ∀ code ∈ codes, AllSolid code.toList) :
    ∃ above below, (preamble definitions ++ "\n\n\n" ++ joinTexts "\n" (codes.filter (· ≠ ""))).toList =
      List.replicate above '\n' ++
        (unlines (laidLines (fun text => solidLines text.toList) definitions codes) ++
        List.replicate below '\n') ∧
      above ≠ 1 ∧ (laidLines (fun text => solidLines text.toList) definitions codes = [] →
      above = 3 ∧ below = 0) := by
  rw [String.toList_append, String.toList_append, joinTexts_laid solid, laidLines, gapped_pair]
  generalize gapped 1 (codes.map fun text => solidLines text.toList) = codeLines
  rcases preamble_laid unbroken rfl with ⟨none, nothing⟩ | ⟨some, above, notOne, shape⟩
  · rw [none, nothing, if_pos rfl]
    exact ⟨3, 0, by simp [List.replicate], by decide, fun _ => ⟨rfl, rfl⟩⟩
  · rw [if_neg some]
    generalize gapped 1 (definedGroups (fun text => solidLines text.toList) definitions) = lines at *
    have opening : (preamble definitions).toList ++ "\n\n\n".toList =
        List.replicate above '\n' ++ (unlines lines ++ ['\n', '\n']) := by
      have split : "\n\n\n".toList = ['\n'] ++ ['\n', '\n'] := rfl
      rw [split, ← List.append_assoc, shape, List.append_assoc]
    rw [opening]
    split_ifs with none
    · exact ⟨above, 2, by rw [none]; simp [unlines, List.replicate], notOne, fun empty => absurd empty some⟩
    · exact ⟨above, 0, by simp [unlines, List.replicate], notOne, fun empty => by simp [some] at empty⟩

/-- A source is laid out when it is tidied. -/
theorem tidy_laid (unbroken : ∀ text ∈ definitions, Unbroken text.toList)
    (solid : ∀ code ∈ codes, AllSolid code.toList) :
    (tidy (preamble definitions ++ "\n\n\n" ++ joinTexts "\n" (codes.filter (· ≠ "")))).toList =
      unlines (laidLines (fun text => firmLines text.toList) definitions codes) := by
  have trimmed : (laidLines (fun text => solidLines text.toList) definitions codes).map trimEnd =
      laidLines (fun text => firmLines text.toList) definitions codes := by
    simp only [map_laidLines (f := trimEnd) rfl, firmLines_eq_map]
  obtain ⟨above, below, shape, notOne, empty⟩ := exists_around unbroken solid
  rw [tidy, String.toList_ofList, shape, ← trimmed]
  by_cases none : laidLines (fun text => solidLines text.toList) definitions codes = []
  · obtain ⟨rfl, rfl⟩ := empty none
    rw [none]
    rfl
  · refine tidy_framed ((framed_laidLines fun text line => isSolid_of_mem_solidLines).2 none)
      (fun line member => ?_) notOne below
    rcases mem_laidLines member with rfl | ⟨text, inside⟩
    · simp
    · exact oneLine_of_mem_solidLines inside

/-- A text that one more line feed closes has no blank lines if it is made of lines that are not blank. -/
theorem unbroken_of_closed {text : List Char} {lines : List (List Char)}
    (oneLine : ∀ line ∈ lines, '\n' ∉ line) (solid : ∀ line ∈ lines, isSolid line)
    (closed : text ++ ['\n'] = unlines lines) : Unbroken text := by
  rw [Unbroken, solidLines, splitLines_of_closed oneLine closed, List.filter_eq_self.mpr solid]

theorem allSolid_unlines {lines : List (List Char)} (oneLine : ∀ line ∈ lines, '\n' ∉ line)
    (solid : ∀ line ∈ lines, isSolid line) :
    AllSolid (unlines lines) := by
  have none : isSolid [] = false := rfl
  rw [AllSolid, solidLines, splitLines_unlines oneLine, List.filter_append, List.filter_eq_self.mpr solid,
    List.filter_cons_of_neg (by simp [none]), List.filter_nil, List.append_nil]

end Laid

section Neat

/-- A source is neat: there is something in its first line, it ends with one line feed, no line ends with a
space or a tab, and no four line feeds come in a row. -/
structure IsNeat (source : String) : Prop where
  first : ∃ line rest, splitLines source.toList = line :: rest ∧ isSolid line
  closed : ∃ front c, source.toList = front ++ [c, '\n'] ∧ c ≠ '\n'
  ends : ∀ line ∈ splitLines source.toList, ∀ c ∈ line.getLast?, isSpaceOrTab c = false
  feeds : ¬ List.replicate 4 '\n' <:+: source.toList

/-- A source is laid out: it has the lines of definitions, with a blank line between each two groups, and
those of codes, with a blank line between each two, and there is nothing more to the definitions and the codes
but spaces at the ends of lines. -/
structure IsLaidOut (definitions codes : List String) (source : String) : Prop where
  lines : source.toList = unlines (laidLines (fun text => firmLines text.toList) definitions codes)
  defined : ∀ text ∈ definitions, trimLineEnds (text.toList ++ ['\n']) = unlines (firmLines text.toList)
  coded : ∀ code ∈ codes, trimLineEnds code.toList = unlines (firmLines code.toList)
  sparse : ∀ run, run <:+: gapped 1 (definedGroups (fun text => firmLines text.toList) definitions) →
    (∀ line ∈ run, isSolid line = false) → run.length ≤ 1
  neat : source = "" ∨ IsNeat source

/-- A trimmed line does not end with a space. -/
theorem not_space_of_trimEnd {line : List Char} (trimmed : trimEnd line = line) :
    ∀ c ∈ line.getLast?, isSpaceOrTab c = false := by
  intro c last
  obtain ⟨filled, rfl⟩ := List.mem_getLast?_eq_getLast last
  simpa using List.rdropWhile_eq_self_iff.mp trimmed filled

theorem isNeat_of_framed {source : String} {lines : List (List Char)} (framed : Framed 2 lines)
    (shape : source.toList = unlines lines) (each : ∀ line ∈ lines, '\n' ∉ line ∧ trimEnd line = line) :
    IsNeat source := by
  have split : splitLines source.toList = lines ++ [[]] := by
    rw [shape, splitLines_unlines fun line member => (each line member).1]
  obtain ⟨front, last, rfl, _⟩ := framed.last
  have whole : source.toList = (unlines front ++ last) ++ ['\n'] := by
    rw [shape, unlines_append, unlines_cons, List.append_assoc]; rfl
  have text : splitLines (unlines front ++ last) = front ++ [last] :=
    splitLines_of_closed (fun line member => (each line member).1) (by rw [← whole, shape])
  have framedText : Framed 2 (splitLines (unlines front ++ last)) := by rwa [text]
  obtain ⟨body, c, shapeText⟩ := (List.eq_nil_or_concat' _).resolve_left framedText.ne_nil
  have other : c ≠ '\n' := by
    rintro rfl
    exact framedText.feeds.2.1 (by rw [shapeText]; simp)
  refine ⟨?_, ⟨body, c, ?_, other⟩, ?_, fun inside => ?_⟩
  · obtain ⟨line, rest, same, solid⟩ := framed.first
    exact ⟨line, rest ++ [[]], by rw [split, same]; rfl, solid⟩
  · rw [whole, shapeText, List.append_assoc]
    rfl
  · intro line member
    rw [split] at member
    rcases List.mem_append.mp member with among | empty
    · exact not_space_of_trimEnd (each line among).2
    · rw [List.mem_singleton.mp empty]
      simp
  · rw [whole, shapeText, List.append_assoc, List.singleton_append] at inside
    have feeds : ∀ d ∈ List.replicate 4 '\n', decide (d ≠ '\n') = false := fun d member => by
      simp [List.eq_of_mem_replicate member]
    rcases @infix_of_append_cons _ (fun d => decide (d ≠ '\n')) _ _ _ _ (by simpa using other) feeds
      inside with before | behind
    · exact framedText.feeds.2.2 (shapeText ▸ before.trans (List.prefix_append ..).isInfix)
    · exact absurd behind.length_le (by simp)

/-- A source is laid out when it is tidied, if there are no blank lines in the definitions and the codes. -/
theorem isLaidOut_tidy {definitions codes : List String}
    (unbroken : ∀ text ∈ definitions, Unbroken text.toList) (solid : ∀ code ∈ codes, AllSolid code.toList) :
    IsLaidOut definitions codes
    (tidy (preamble definitions ++ "\n\n\n" ++ joinTexts "\n" (codes.filter (· ≠ "")))) := by
  have shape := tidy_laid unbroken solid
  have firm : ∀ text : String, ∀ line ∈ firmLines text.toList, isSolid line := by
    intro text line member
    obtain ⟨_, _, solid, rfl⟩ := mem_firmOf.mp member
    rwa [isSolid_trimEnd]
  refine ⟨shape, fun text member => ?_, fun code member => ?_, fun run inside blank => ?_, ?_⟩
  · have lines := (exists_splitLines text.toList).2.2
    rw [unbroken text member] at lines
    rw [lines, trimLineEnds_unlines fun line => oneLine_of_mem_solidLines, firmLines_eq_map]
  · rw [firmLines_eq_map, ← trimLineEnds_unlines fun line => oneLine_of_mem_solidLines, ← solid code member]
  · by_cases filled : gapped 1 (definedGroups (fun text => firmLines text.toList) definitions) = []
    · rw [filled] at inside
      rw [List.infix_nil.mp inside]
      exact Nat.zero_le 1
    · exact ((@framed_laidLines definitions codes _ firm).1 filled).sparse run inside blank
  · by_cases filled : laidLines (fun text => firmLines text.toList) definitions codes = []
    · rw [filled] at shape
      exact .inl (String.toList_inj.mp shape)
    · refine .inr (isNeat_of_framed ((framed_laidLines firm).2 filled) shape fun line member => ?_)
      rcases mem_laidLines member with rfl | ⟨text, inText⟩
      · exact ⟨by simp, rfl⟩
      · obtain ⟨whole, among, _, rfl⟩ := mem_firmOf.mp inText
        exact ⟨fun feed => (exists_splitLines text.toList).2.1 whole among
          ((isPrefix_trimEnd whole).subset feed),
          List.rdropWhile_idempotent ..⟩

end Neat

end BlockCompiler

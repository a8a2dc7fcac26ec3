import BlockCompiler.Proofs.Text.Wrapped

/-!
Wrapped texts: breaking a text into lines loses and adds nothing but blanks, and no line is wider than asked
for unless all of it is one word.
-/

namespace BlockCompiler

/-- What stands in a text besides blanks. -/
def inked (text : List Char) : List Char := text.filter fun c => !isBlank c

/-- A text is one word: there is something in it, and no plain blank. -/
def IsOneWord (text : List Char) : Prop := text ≠ [] ∧ ∀ c ∈ text, isPlainBlank c = false

instance (text : List Char) : Decidable (IsOneWord text) := inferInstanceAs (Decidable (_ ∧ _))

section Inked

variable {text : List Char}

@[simp] theorem inked_append (text more : List Char) : inked (text ++ more) = inked text ++ inked more :=
  List.filter_append ..

theorem inked_of_blank (blank : ∀ c ∈ text, isBlank c) : inked text = [] := by
  rw [inked, List.filter_eq_nil_iff]
  intro c member
  simp [blank c member]

theorem inked_cons_of_blank {c : Char} (blank : isBlank c) (text : List Char) :
    inked (c :: text) = inked text :=
  List.filter_cons_of_neg (by simp [blank])

theorem inked_unlines (lines : List (List Char)) : inked (unlines lines) = inked lines.flatten := by
  induction lines with
  | nil => rfl
  | cons line lines ih =>
    rw [unlines_cons, List.flatten_cons, inked_append, inked_append, inked_cons_of_blank (by decide), ih]

/-- A text and its lines have the same in them besides blanks. -/
theorem inked_splitLines (text : List Char) : inked (splitLines text).flatten = inked text := by
  have whole := (exists_splitLines text).2.2
  have feed : inked ['\n'] = [] := inked_of_blank (by decide)
  rw [← inked_unlines, ← whole, inked_append, feed, List.append_nil]

theorem inked_intercalate (texts : List (List Char)) :
    inked (['\n'].intercalate texts) = inked texts.flatten := by
  induction texts with
  | nil => rfl
  | cons text rest ih =>
    cases rest with
    | nil => rw [List.intercalate_singleton, List.flatten_singleton]
    | cons next rest =>
      rw [intercalate_feed, inked_append, inked_cons_of_blank (by decide), ih, ← inked_append]
      rfl

theorem inked_flatten_map {step : List Char → List Char} (each : ∀ text, inked (step text) = inked text)
    (texts : List (List Char)) :
    inked (texts.map step).flatten = inked texts.flatten := by
  induction texts with
  | nil => rfl
  | cons text rest ih =>
    rw [List.map_cons, List.flatten_cons, List.flatten_cons, inked_append, inked_append, each, ih]

theorem isBlank_of_isPlainBlank {c : Char} (blank : isPlainBlank c) : isBlank c := by
  simp only [isPlainBlank, Bool.or_eq_true, Bool.and_eq_true, beq_iff_eq, decide_eq_true_eq] at blank
  rcases blank with rfl | ⟨above, below⟩
  · decide
  · simp [isBlank, blankRanges, inRanges, above, below]

theorem inked_expandTabs (column : Nat) (text : List Char) : inked (expandTabs column text) = inked text := by
  induction text generalizing column with
  | nil => rfl
  | cons c rest ih =>
    have kept : ∀ column, inked (c :: expandTabs column rest) = inked (c :: rest) := by
      intro column
      have front := ih column
      simp only [inked, List.filter_cons] at front ⊢
      rw [front]
    rw [expandTabs]
    dsimp only
    split_ifs with tab
    · have spaces : ∀ count, inked (List.replicate count ' ') = [] := fun count =>
        inked_of_blank fun d member => List.eq_of_mem_replicate member ▸ by decide
      rw [inked_append, spaces, ih, tab, inked_cons_of_blank (by decide), List.nil_append]
    · exact kept 0
    · exact kept _

theorem inked_withSpaces (text : List Char) : inked (withSpaces text) = inked text := by
  rw [← inked_expandTabs 0 text, withSpaces]
  induction expandTabs 0 text with
  | nil => rfl
  | cons c rest ih =>
    rw [List.map_cons]
    split_ifs with blank
    · rw [inked_cons_of_blank (by decide), inked_cons_of_blank (isBlank_of_isPlainBlank blank), ih]
    · simp only [inked, List.filter_cons] at ih ⊢
      rw [ih]

theorem isPlainBlank_of_mem_withSpaces {c : Char} (member : c ∈ withSpaces text) :
    c = ' ' ∨ isPlainBlank c = false := by
  obtain ⟨d, _, rfl⟩ := List.mem_map.mp member
  split_ifs with blank
  · exact .inl rfl
  · exact .inr (by simpa using blank)

end Inked

section Chunks

variable {chunks : List (List Char)} {width : Nat} {line : List Char}

/-- A chunk is made of spaces, or has none. -/
theorem splitChunks_uniform (text : List Char) :
    ∀ chunk ∈ splitChunks text, (∀ c ∈ chunk, c = ' ') ∨ ∀ c ∈ chunk, c ≠ ' ' := by
  induction text with
  | nil => simp [splitChunks]
  | cons c rest ih =>
    have alone : (∀ d ∈ [c], d = ' ') ∨ ∀ d ∈ [c], d ≠ ' ' := by
      by_cases space : c = ' ' <;> simp [space]
    rw [splitChunks]
    cases chunks : splitChunks rest with
    | nil => exact List.forall_mem_singleton.mpr alone
    | cons chunk later =>
      rw [chunks] at ih
      obtain ⟨here, others⟩ := List.forall_mem_cons.mp ih
      cases chunk with
      | nil => exact List.forall_mem_cons.mpr ⟨alone, ih⟩
      | cons d chunk =>
        dsimp only
        split_ifs with same
        · refine List.forall_mem_cons.mpr ⟨here.imp (fun spaces => ?_) (fun solid => ?_), others⟩
          · exact List.forall_mem_cons.mpr ⟨same.mpr (spaces d (List.mem_cons_self ..)), spaces⟩
          · exact List.forall_mem_cons.mpr
              ⟨fun space => solid d (List.mem_cons_self ..) (same.mp space), solid⟩
        · exact List.forall_mem_cons.mpr ⟨alone, ih⟩

/-- The lines that chunks fill have all in them besides blanks. -/
theorem FillsLines.inked_eq {lines : List (List Char)} (fills : FillsLines width chunks lines) :
    inked lines.flatten = inked chunks.flatten := by
  induction fills with
  | nil => rfl
  | @blank blanks rest lines areBlank _ ih =>
    have nothing : inked blanks.flatten = [] := by
      refine inked_of_blank fun c member => ?_
      obtain ⟨chunk, among, inChunk⟩ := List.mem_flatten.mp member
      exact List.all_eq_true.mp (areBlank chunk among) c inChunk
    rw [ih, List.flatten_append, inked_append, nothing, List.nil_append]
  | line _ _ _ ih => rw [List.flatten_cons, inked_append, ih, ← inked_append, ← List.flatten_append]

/-- A line that chunks fill is not too wide, or it is one chunk that is not blank. -/
theorem FillsLines.width_of_mem {lines : List (List Char)} (fills : FillsLines width chunks lines)
    (member : line ∈ lines) :
    line.length ≤ width ∨ line ∈ chunks ∧ line.all isBlank = false := by
  induction fills with
  | nil => cases member
  | blank _ _ ih => exact (ih member).imp id (And.imp_left (List.mem_append_right _))
  | line _ wide _ ih =>
    rcases List.mem_cons.mp member with rfl | later
    · refine wide.imp id ?_
      rintro ⟨chunk, rfl, solid⟩
      rw [List.flatten_singleton]
      exact ⟨List.mem_append_left _ (List.mem_singleton_self chunk), solid⟩
    · exact (ih later).imp id (And.imp_left (List.mem_append_right _))

end Chunks

section Wrap

variable {width : Nat} {line text : List Char}

theorem inked_wrapLine (width : Nat) (line : List Char) : inked (wrapLine width line) = inked line := by
  obtain ⟨lines, fills, shape⟩ := exists_fillsLines width line
  rw [shape, inked_intercalate, fills.inked_eq, (splitChunks_spec (withSpaces line)).1, inked_withSpaces]

/-- A wrapped text has all in it that the text has besides blanks. -/
theorem inked_wrap (width : Nat) (text : String) : inked (wrap width text).toList = inked text.toList := by
  rw [wrap, String.toList_ofList, inked_intercalate, inked_flatten_map (inked_wrapLine width),
    inked_splitLines]

/-- What chunks of a text fill stands in the text. -/
theorem FillsLines.subset {lines : List (List Char)} (fills : FillsLines width (splitChunks text) lines)
    (member : line ∈ lines) : line ⊆ text := by
  obtain ⟨front, run, more, shape, rfl⟩ := fills.exists_run member
  intro c inRun
  rw [← (splitChunks_spec text).1, shape]
  simp [inRun]

/-- A chunk that is not blank is one word, where spaces stand for all plain blanks. -/
theorem isOneWord_of_mem_splitChunks (member : line ∈ splitChunks (withSpaces text))
    (within : line ⊆ withSpaces text) (solid : line.all isBlank = false) : IsOneWord line := by
  obtain ⟨c, inLine, notBlank⟩ := List.all_eq_false.mp solid
  refine ⟨List.ne_nil_of_mem inLine, fun d inLineToo => ?_⟩
  rcases splitChunks_uniform _ line member with spaces | words
  · exact absurd (spaces c inLine ▸ by decide) notBlank
  · exact (isPlainBlank_of_mem_withSpaces (within inLineToo)).resolve_left (words d inLineToo)

/-- A line of a wrapped text is not too wide, unless it is one word. -/
theorem width_of_mem_wrap {text : String} (member : line ∈ splitLines (wrap width text).toList) :
    line.length ≤ width ∨ IsOneWord line := by
  rcases exists_filled_of_mem_wrap member with rfl | ⟨old, _, lines, fills, filled, among, inFilled⟩
  · exact .inl (Nat.zero_le width)
  · have within := fills.subset among
    have oneLine : '\n' ∉ filled := fun feed => by
      rcases isPlainBlank_of_mem_withSpaces (within feed) with same | solid
      · cases same
      · cases solid
    have alone : splitLines filled = [filled] :=
      splitLines_of_closed (List.forall_mem_singleton.mpr oneLine) (by simp [unlines])
    rw [alone, List.mem_singleton] at inFilled
    subst inFilled
    rcases fills.width_of_mem among with fits | ⟨isChunk, solid⟩
    · exact .inl fits
    · exact .inr (isOneWord_of_mem_splitChunks isChunk within solid)

end Wrap

end BlockCompiler

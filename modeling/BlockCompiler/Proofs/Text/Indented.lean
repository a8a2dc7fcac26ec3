import BlockCompiler.Proofs.Text.Firm
import BlockCompiler.Text.Lead
import Mathlib.Logic.Function.Iterate

/-!
A lead before every line: what it makes of a text is told on the lines of the text, where a line feed at the
end starts no line of its own. Leads of one line that are put before a text in turn add up.
-/

namespace BlockCompiler

/-- Whether a line feed ends a text. -/
def isEnded (text : List Char) : Bool := text.getLast? = some '\n'

/-- The lines of a text. A line feed at the end ends the last of them and starts no new one. -/
def linesOf (text : List Char) : List (List Char) := splitLines (dropLineFeedAtEnd text)

/-- Lines as a text, with line feeds between them and one behind the last if that is ended. -/
def ofLines (lines : List (List Char)) (ended : Bool) : List Char :=
  ['\n'].intercalate lines ++ if ended then ['\n'] else []

section Lines

variable {lines : List (List Char)} {text : List Char} {ended : Bool}

theorem isEnded_iff : isEnded text ↔ text.getLast? = some '\n' := by
  simp [isEnded]

theorem isEnded_of_oneLine (oneLine : '\n' ∉ text) : isEnded text = false :=
  decide_eq_false fun last => oneLine (List.mem_of_getLast? last)

theorem dropLineFeedAtEnd_append (text : List Char) :
    (dropLineFeedAtEnd text ++ if isEnded text then ['\n'] else []) = text := by
  unfold dropLineFeedAtEnd isEnded
  by_cases feed : text.getLast? = some '\n'
  · obtain ⟨front, rfl⟩ := List.getLast?_eq_some_iff.mp feed
    simp
  · simp [feed]

theorem linesOf_ne_nil (text : List Char) : linesOf text ≠ [] := (exists_splitLines _).1

theorem oneLine_of_mem_linesOf : ∀ line ∈ linesOf text, '\n' ∉ line := (exists_splitLines _).2.1

/-- Lines that are all ended are lines with line feeds between them and one behind the last. -/
theorem unlines_eq_ofLines (filled : lines ≠ []) : unlines lines = ofLines lines true := by
  induction lines with
  | nil => exact absurd rfl filled
  | cons line rest ih =>
    cases rest with
    | nil => simp [unlines, ofLines]
    | cons next rest =>
      rw [unlines_cons, ih (by simp), ofLines, ofLines, List.intercalate_cons_cons]
      simp

/-- A text is its lines with line feeds between them. -/
theorem intercalate_splitLines (text : List Char) : ['\n'].intercalate (splitLines text) = text := by
  obtain ⟨filled, _, closed⟩ := exists_splitLines text
  rw [unlines_eq_ofLines filled] at closed
  exact (List.append_cancel_right closed).symm

theorem ofLines_linesOf (text : List Char) : ofLines (linesOf text) (isEnded text) = text := by
  rw [ofLines, linesOf, intercalate_splitLines, dropLineFeedAtEnd_append]

/-- The lines of a text that is made of some lines are these, if the text does not end with a line feed of its
own. -/
theorem linesOf_ofLines (filled : lines ≠ []) (each : ∀ line ∈ lines, '\n' ∉ line)
    (agree : isEnded (ofLines lines ended) = ended) : linesOf (ofLines lines ended) = lines := by
  have parts := dropLineFeedAtEnd_append (ofLines lines ended)
  rw [agree] at parts
  have body : dropLineFeedAtEnd (ofLines lines ended) = ['\n'].intercalate lines :=
    List.append_cancel_right parts
  rw [linesOf, body]
  exact splitLines_of_closed each (unlines_eq_ofLines filled).symm

end Lines

section Led

variable {lead inner : String} {text : List Char}

/-- A text ends as before. -/
theorem getLast?_leadLaterLines (lead text : List Char) :
    (leadLaterLines lead text).getLast? = text.getLast? := by
  induction text with
  | nil => rfl
  | cons c rest ih =>
    by_cases last : rest = []
    · rw [last, leadLaterLines_singleton]
    · obtain ⟨d, ends⟩ := Option.isSome_iff_exists.mp (List.getLast?_isSome.mpr last)
      rw [leadLaterLines_cons_of_ne_nil lead c last, List.getLast?_cons, List.getLast?_append, ih, ends,
        List.getLast?_cons, ends]
      rfl

theorem isEnded_leadLines (lead text : String) :
    isEnded (leadLines lead text).toList ↔ isEnded text.toList ∨ text = "" ∧ isEnded lead.toList := by
  rw [isEnded_iff, isEnded_iff, isEnded_iff, leadLines, String.toList_ofList, List.getLast?_append,
    getLast?_leadLaterLines,
    ← String.toList_eq_nil_iff]
  cases last : text.toList.getLast? with
  | none => simp [List.getLast?_eq_none_iff.mp last]
  | some c =>
    have filled : text.toList ≠ [] := fun none => by simp [none] at last
    simp [filled]

theorem isEnded_leadLines_of_oneLine (oneLine : '\n' ∉ lead.toList) (text : String) :
    isEnded (leadLines lead text).toList = isEnded text.toList := by
  rw [Bool.eq_iff_iff, isEnded_leadLines, isEnded_of_oneLine oneLine]
  simp

/-- One more line feed at the end calls for no lead. -/
theorem leadLaterLines_close (lead : List Char) (unended : isEnded text = false) :
    leadLaterLines lead (text ++ ['\n']) = leadLaterLines lead text ++ ['\n'] := by
  induction text with
  | nil => rfl
  | cons c rest ih =>
    cases rest with
    | nil =>
      have other : c ≠ '\n' := fun same => by simp [isEnded, same] at unended
      rw [List.singleton_append, leadLaterLines_cons_of_ne_nil lead c (by simp), if_neg other,
        leadLaterLines_singleton,
        leadLaterLines_singleton]
      rfl
    | cons d rest =>
      have later : isEnded (d :: rest) = false := by simpa [isEnded, List.getLast?_cons_cons] using unended
      rw [List.cons_append, leadLaterLines_cons_of_ne_nil lead c (by simp),
        leadLaterLines_cons_of_ne_nil lead c (by simp), ih later]
      simp

/-- A text with a lead is made of its lines with the lead before each. -/
theorem leadLines_eq_ofLines (lead text : String) :
    (leadLines lead text).toList =
    ofLines ((linesOf text.toList).map (lead.toList ++ ·)) (isEnded text.toList) := by
  have closed := (exists_splitLines (dropLineFeedAtEnd text.toList)).2.2
  have parts := dropLineFeedAtEnd_append text.toList
  have led : ∀ whole : String, whole.toList = unlines (linesOf text.toList) →
      (leadLines lead whole).toList = ofLines ((linesOf text.toList).map (lead.toList ++ ·)) true := by
    intro whole shape
    rw [leadLines_unlines (linesOf_ne_nil _) oneLine_of_mem_linesOf shape,
      unlines_eq_ofLines (by simpa using linesOf_ne_nil text.toList)]
  cases ended : isEnded text.toList with
  | true =>
    rw [ended, if_pos rfl] at parts
    exact led text (parts.symm.trans closed)
  | false =>
    rw [ended, if_neg (by simp), List.append_nil] at parts
    rw [parts] at closed
    -- The law holds of the text with one more line feed, which stays the last character on both sides.
    have whole := led (text ++ "\n") ((String.toList_append ..).trans (by rw [linesOf, parts]; exact closed))
    have one : "\n".toList = ['\n'] := rfl
    rw [leadLines, String.toList_ofList, String.toList_append, one,
      leadLaterLines_close _ ended, ← List.append_assoc] at whole
    rw [leadLines, String.toList_ofList]
    exact (List.append_cancel_right whole).trans (List.append_nil _).symm

/-- Behind a lead that is one line the lines of a text are as many as before, each with the lead before it. -/
theorem linesOf_leadLines (oneLine : '\n' ∉ lead.toList) (text : String) :
    linesOf (leadLines lead text).toList = (linesOf text.toList).map (lead.toList ++ ·) := by
  have ends := isEnded_leadLines_of_oneLine oneLine text
  rw [leadLines_eq_ofLines] at ends ⊢
  refine linesOf_ofLines (by simpa using linesOf_ne_nil text.toList) (fun line member => ?_) ends
  obtain ⟨old, among, rfl⟩ := List.mem_map.mp member
  exact List.not_mem_append oneLine (oneLine_of_mem_linesOf old among)

/-- A lead before a lead that is one line is one lead. -/
theorem leadLines_leadLines (lead : String) (oneLine : '\n' ∉ inner.toList) (text : String) :
    leadLines lead (leadLines inner text) = leadLines (lead ++ inner) text := by
  have each : (fun line => lead.toList ++ line) ∘ (inner.toList ++ ·) = ((lead ++ inner).toList ++ ·) := by
    funext line
    simp
  refine String.toList_inj.mp ?_
  calc (leadLines lead (leadLines inner text)).toList
      = ofLines (((linesOf text.toList).map (inner.toList ++ ·)).map (lead.toList ++ ·))
        (isEnded text.toList) := by
        rw [leadLines_eq_ofLines, linesOf_leadLines oneLine, isEnded_leadLines_of_oneLine oneLine]
    _ = ofLines ((linesOf text.toList).map ((lead ++ inner).toList ++ ·)) (isEnded text.toList) := by
      rw [List.map_map, each]
    _ = (leadLines (lead ++ inner) text).toList := (leadLines_eq_ofLines ..).symm

-- A lead of two lines begins a line of its own, which the next lead is put before.
example : leadLines "> " (leadLines "\n" "a") = "> \n> a" ∧ leadLines ("> " ++ "\n") "a" = "> \na" := by
  decide

theorem leadLines_empty (text : String) : leadLines "" text = text := by
  have same : ((linesOf text.toList).map ("".toList ++ ·)) = linesOf text.toList := List.map_id _
  rw [← String.toList_inj, leadLines_eq_ofLines, same, ofLines_linesOf]

/-- A lead that is put before a text again and again adds up. -/
theorem leadLines_iterate (oneLine : '\n' ∉ lead.toList) (depth : Nat) (text : String) :
    (leadLines lead)^[depth] text = leadLines (String.join (List.replicate depth lead)) text := by
  induction depth generalizing text with
  | zero => exact (leadLines_empty text).symm
  | succ depth ih =>
    rw [Function.iterate_succ_apply, ih, leadLines_leadLines _ oneLine, List.replicate_succ',
      String.join_append]
    simp

/-- A lead without backslashes comes before every line of a text, empty lines included, and nothing else
changes. Lines are what stands between line feeds; a line feed at the end ends the last of them and is kept,
and none is added there, unless the text is empty and the lead itself ends with one. Where the lead that is
put first is one line, the two are as good as one lead, and so it is at any depth. -/
theorem leadLinesExpanded_linewise {lead : String} (plain : '\\' ∉ lead.toList) (text : String) :
    (linesOf text.toList ≠ [] ∧ (∀ line ∈ linesOf text.toList, '\n' ∉ line) ∧
      ofLines (linesOf text.toList) (isEnded text.toList) = text.toList) ∧
    leadLinesExpanded lead text = .ok (leadLines lead text) ∧
    (leadLines lead text).toList =
    ofLines ((linesOf text.toList).map (lead.toList ++ ·)) (isEnded text.toList) ∧
    (isEnded (leadLines lead text).toList ↔ isEnded text.toList ∨ text = "" ∧ isEnded lead.toList) ∧
    (∀ inner : String, '\\' ∉ inner.toList → '\n' ∉ inner.toList →
      (do leadLinesExpanded lead (← leadLinesExpanded inner text)) = leadLinesExpanded (lead ++ inner) text) ∧
    ('\n' ∉ lead.toList → ∀ depth : Nat,
      (leadLines lead)^[depth] text = leadLines (String.join (List.replicate depth lead)) text) := by
  refine ⟨⟨linesOf_ne_nil _, oneLine_of_mem_linesOf, ofLines_linesOf _⟩,
    leadLinesExpanded_of_plain plain text,
    leadLines_eq_ofLines lead text, isEnded_leadLines lead text, fun inner plainInner oneLine => ?_,
    fun oneLine depth => leadLines_iterate oneLine depth text⟩
  have both : '\\' ∉ (lead ++ inner).toList := by
    rw [String.toList_append]
    exact List.not_mem_append plain plainInner
  rw [leadLinesExpanded_of_plain plainInner,
    leadLinesExpanded_of_plain both, ← leadLines_leadLines lead oneLine]
  exact leadLinesExpanded_of_plain plain _

/-- A remark that opens with an empty line and closes with one, indented before it becomes a comment. -/
theorem leadLinesExpanded_linewise_remark :
    '\\' ∉ "// ".toList ∧ '\n' ∉ "// ".toList ∧ '\\' ∉ "  ".toList ∧ '\n' ∉ "  ".toList ∧
    leadLinesExpanded "// " "\na\n\n" = .ok "// \n// a\n// \n" ∧
    (do leadLinesExpanded "// " (← leadLinesExpanded "  " "\na\n\n")) = .ok "//   \n//   a\n//   \n" ∧
    (leadLines "// ")^[2] "\na\n\n" = "// // \n// // a\n// // \n" := by
  obtain ⟨_, whole, led, _, nested, deep⟩ := @leadLinesExpanded_linewise "// " (by decide) "\na\n\n"
  refine ⟨by decide, by decide, by decide, by decide, ?_, ?_, ?_⟩
  · rw [whole]
    exact congrArg Except.ok (String.toList_inj.mp (led.trans (by decide)))
  · rw [nested "  " (by decide) (by decide)]
    decide
  · rw [deep (by decide)]
    decide

end Led

end BlockCompiler

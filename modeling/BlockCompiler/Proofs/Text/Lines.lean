import BlockCompiler.Text.Lines
import Mathlib.Data.List.Basic

/-!
Texts as lines: how a text that is made of lines is split, and how it gets a lead before each line.
-/

namespace BlockCompiler

/-- Lines as a text, each ended by a line feed. -/
def unlines (lines : List (List Char)) : List Char := lines.flatMap (· ++ ['\n'])

section Lines

variable {lines : List (List Char)}

theorem unlines_cons (line : List Char) (lines : List (List Char)) :
    unlines (line :: lines) = line ++ '\n' :: unlines lines := by
  simp [unlines]

theorem unlines_eq_nil : unlines lines = [] ↔ lines = [] := by
  cases lines <;> simp [unlines]

theorem unlines_append (lines more : List (List Char)) :
    unlines (lines ++ more) = unlines lines ++ unlines more := by
  simp [unlines]

theorem splitLines_cons_of_ne {c : Char} (differs : c ≠ '\n') (text : List Char) :
    ∃ line rest, splitLines text = line :: rest ∧ splitLines (c :: text) = (c :: line) :: rest := by
  cases text with
  | nil => exact ⟨[], [], rfl, by simp [splitLines, differs]⟩
  | cons d text =>
    have filled : ∀ text, splitLines text ≠ [] := by
      intro text
      induction text with
      | nil => simp [splitLines]
      | cons e text ih =>
        unfold splitLines
        split
        · simp
        · split <;> simp
    cases split : splitLines (d :: text) with
    | nil => exact absurd split (filled _)
    | cons line rest => exact ⟨line, rest, rfl, by rw [splitLines, split]; simp [differs]⟩

theorem splitLines_append {line : List Char} (oneLine : '\n' ∉ line) (text : List Char) :
    splitLines (line ++ '\n' :: text) = line :: splitLines text := by
  induction line with
  | nil =>
    rw [List.nil_append, splitLines]
    cases split : splitLines text with
    | nil =>
      cases text with
      | nil => cases split
      | cons c text =>
        unfold splitLines at split
        split at split
        · cases split
        · split at split <;> cases split
    | cons first rest => simp
  | cons c line ih =>
    simp only [List.mem_cons, not_or] at oneLine
    obtain ⟨first, rest, split, whole⟩ := splitLines_cons_of_ne (Ne.symm oneLine.1) (line ++ '\n' :: text)
    rw [List.cons_append, whole]
    rw [ih oneLine.2] at split
    cases split
    rfl

/-- A text that is made of lines is split into them. -/
theorem splitLines_unlines (each : ∀ line ∈ lines, '\n' ∉ line) :
    splitLines (unlines lines) = lines ++ [[]] := by
  induction lines with
  | nil => rfl
  | cons line rest ih =>
    obtain ⟨first, others⟩ := List.forall_mem_cons.mp each
    rw [unlines_cons, splitLines_append first, ih others, List.cons_append]

/-- A text that ends with a line feed is made of lines. -/
theorem exists_unlines {text : List Char} (ends : text.getLast? = some '\n') :
    ∃ lines, lines ≠ [] ∧ (∀ line ∈ lines, '\n' ∉ line) ∧ text = unlines lines := by
  induction text with
  | nil => cases ends
  | cons c text ih =>
    cases text with
    | nil =>
      obtain rfl : c = '\n' := by simpa using ends
      exact ⟨[[]], by simp, by simp, rfl⟩
    | cons d text =>
      obtain ⟨lines, filled, each, shape⟩ := ih (by simpa [List.getLast?_cons_cons] using ends)
      rw [shape]
      by_cases feed : c = '\n'
      · subst feed
        exact ⟨[] :: lines, by simp, by simpa using each, by simp [unlines]⟩
      · cases lines with
        | nil => exact absurd rfl filled
        | cons line rest =>
          obtain ⟨first, others⟩ := List.forall_mem_cons.mp each
          refine ⟨(c :: line) :: rest, by simp, List.forall_mem_cons.mpr ⟨?_, others⟩, by simp [unlines]⟩
          simpa using ⟨fun same => feed same.symm, first⟩

theorem leadLaterLines_cons (lead : List Char) (c : Char) (rest : List Char) :
    leadLaterLines lead (c :: rest) =
    c :: (if c = '\n' then if rest = [] then [] else lead ++ leadLaterLines lead rest
    else leadLaterLines lead rest) := by
  cases rest with
  | nil =>
    by_cases feed : c = '\n'
    · subst feed
      rfl
    · rw [leadLaterLines.eq_3 _ _ _ (by simp [feed])]
      simp [feed, leadLaterLines]
  | cons d rest =>
    rw [leadLaterLines.eq_3 _ _ _ (by simp)]
    by_cases feed : c = '\n'
    · rw [if_pos feed, if_pos feed, if_neg (by simp)]
    · rw [if_neg feed, if_neg feed]

/-- After a character that is not the last a lead comes just if the character is a line feed. -/
theorem leadLaterLines_cons_of_ne_nil (lead : List Char) (c : Char) {text : List Char} (filled : text ≠ []) :
    leadLaterLines lead (c :: text) = c :: ((if c = '\n' then lead else []) ++ leadLaterLines lead text) := by
  rw [leadLaterLines_cons, if_neg filled]
  split_ifs <;> rfl

theorem leadLaterLines_singleton (lead : List Char) (c : Char) : leadLaterLines lead [c] = [c] := by
  rw [leadLaterLines_cons, if_pos rfl]
  split_ifs <;> rfl

theorem leadLaterLines_append {lead line : List Char} (oneLine : '\n' ∉ line) (text : List Char) :
    leadLaterLines lead (line ++ '\n' :: text) =
      line ++ '\n' :: (if text = [] then [] else lead ++ leadLaterLines lead text) := by
  induction line with
  | nil => rw [List.nil_append, leadLaterLines_cons, if_pos rfl, List.nil_append]
  | cons c line ih =>
    simp only [List.mem_cons, not_or] at oneLine
    rw [List.cons_append, leadLaterLines_cons, if_neg (Ne.symm oneLine.1), ih oneLine.2, List.cons_append]

/-- A lead comes before every line. -/
theorem leadLines_unlines {lead text : String} (filled : lines ≠ []) (each : ∀ line ∈ lines, '\n' ∉ line)
    (shape : text.toList = unlines lines) :
    (leadLines lead text).toList = unlines (lines.map (lead.toList ++ ·)) := by
  rw [leadLines, String.toList_ofList, shape]
  clear shape
  induction lines with
  | nil => exact absurd rfl filled
  | cons line rest ih =>
    obtain ⟨first, others⟩ := List.forall_mem_cons.mp each
    have whole : unlines ((line :: rest).map (lead.toList ++ ·)) =
        lead.toList ++ (line ++ '\n' :: unlines (rest.map (lead.toList ++ ·))) := by simp [unlines]
    rw [unlines_cons, leadLaterLines_append first, whole]
    cases rest with
    | nil => simp [unlines]
    | cons next rest =>
      have more : unlines (next :: rest) ≠ [] := by simp [unlines]
      rw [if_neg more, ih (by simp) others]

/-- Lines that get a lead if there are any are all the lines with the lead before them. -/
theorem ite_leadLines_unlines {lead text : String} (each : ∀ line ∈ lines, '\n' ∉ line)
    (shape : text.toList = unlines lines) :
    (if text = "" then "" else leadLines lead text).toList = unlines (lines.map (lead.toList ++ ·)) := by
  split_ifs with empty
  · subst empty
    rw [unlines_eq_nil.mp shape.symm]
    rfl
  · have filled : lines ≠ [] :=
      fun none => empty (String.toList_inj.mp (shape.trans (unlines_eq_nil.mpr none)))
    exact leadLines_unlines filled each shape

end Lines

end BlockCompiler

import BlockCompiler.Proofs.Emission.Laid

/-!
The helper function for random whole numbers: the lines of its source under a name, and what they say.
-/

namespace BlockCompiler

section Replace

variable {old new text : List Char}

theorem replaceFrom_of_not_infix (absent : ¬ old <:+: text) : replaceFrom old new 0 text = text := by
  induction text with
  | nil => rfl
  | cons c rest ih =>
    rw [replaceFrom, if_neg, ih]
    · exact fun inner => absent (List.infix_cons inner)
    · exact fun here => absent (List.isPrefixOf_iff_prefix.mp here).isInfix

theorem replaceFrom_skip (front text : List Char) :
    replaceFrom old new front.length (front ++ text) = replaceFrom old new 0 text := by
  induction front with
  | nil => rfl
  | cons c front ih => exact ih

theorem replaceFrom_hit (filled : old ≠ []) (text : List Char) :
    replaceFrom old new 0 (old ++ text) = new ++ replaceFrom old new 0 text := by
  obtain ⟨c, rest, rfl⟩ := List.exists_cons_of_ne_nil filled
  rw [List.cons_append, replaceFrom, if_pos (by simp), List.length_cons, Nat.add_sub_cancel, replaceFrom_skip]

theorem replaceFrom_miss {c : Char} (here : old.head? = some c) {front : List Char} (absent : c ∉ front)
    (text : List Char) :
    replaceFrom old new 0 (front ++ text) = front ++ replaceFrom old new 0 text := by
  induction front with
  | nil => rfl
  | cons d front ih =>
    simp only [List.mem_cons, not_or] at absent
    obtain ⟨differs, absent⟩ := absent
    rw [List.cons_append, replaceFrom, if_neg, ih absent, List.cons_append]
    intro leads
    cases old with
    | nil => cases here
    | cons e rest =>
      obtain ⟨same, _⟩ := List.cons_prefix_cons.mp (List.isPrefixOf_iff_prefix.mp leads)
      exact differs ((Option.some.inj here).symm.trans same)

end Replace

/-- The lines of the helper function below its head. -/
def helperBody : List String :=
  ["  if (a > b) \x7b", "    // Swap a and b to ensure a is smaller.", "    int c = a;", "    a = b;",
    "    b = c;", "  \x7d",
    "  return a + std::rand() % (b - a + 1);", "\x7d"]

/-- The lines of the helper function under a name. -/
def helperLines (name : String) : List (List Char) :=
  ("int ".toList ++ (name.toList ++ "(int a, int b) \x7b".toList)) :: helperBody.map String.toList

theorem joinTexts_append_feed (first : String) (rest : List String) :
    (joinTexts "\n" (first :: rest) ++ "\n").toList = unlines ((first :: rest).map String.toList) := by
  induction rest generalizing first with
  | nil => simp [joinTexts, unlines]
  | cons next rest ih =>
    have more := ih next
    rw [joinTexts, String.intercalate_cons_cons, ← joinTexts, String.append_assoc, String.toList_append, more]
    simp [unlines]

/-- The name of the helper function stands in its source once, in its head. -/
theorem Emission.sourceUnder_randomInt (name : String) :
    (sourceUnder name Template.randomIntSource ++ "\n").toList = unlines (helperLines name) := by
  have feed : "(int a, int b) \x7b\n" = "(int a, int b) \x7b" ++ "\n" := String.toList_inj.mp (by simp)
  have shape : joinTexts "\n" Template.randomIntSource =
      "int " ++ (functionPlaceholder ++ ("(int a, int b) \x7b\n" ++ joinTexts "\n" helperBody)) := by
    have split : Template.randomIntSource = ("int " ++ functionPlaceholder ++ "(int a, int b) \x7b") ::
        helperBody := rfl
    rw [split, joinTexts, helperBody, String.intercalate_cons_cons, feed]
    simp only [String.append_assoc, joinTexts]
  have tail : (joinTexts "\n" helperBody).toList ++ "\n".toList = unlines (helperBody.map String.toList) := by
    rw [← String.toList_append]
    exact joinTexts_append_feed _ _
  have absent : ¬ functionPlaceholder.toList <:+: "(int a, int b) \x7b\n".toList ++
      (joinTexts "\n" helperBody).toList := by
    intro inner
    have none : ∀ line ∈ helperBody.map String.toList, 'F' ∉ line ++ ['\n'] := by decide +kernel
    rcases List.mem_append.mp (inner.subset (show 'F' ∈ _ by decide)) with front | back
    · exact absurd front (by decide)
    · have among : 'F' ∈ unlines (helperBody.map String.toList) := tail ▸ List.mem_append_left _ back
      obtain ⟨line, member, here⟩ := List.mem_flatMap.mp among
      exact none line member here
  rw [sourceUnder, shape]
  simp only [String.toList_append, String.toList_ofList]
  rw [replaceFrom_miss (c := '\x7b') rfl (by decide), replaceFrom_hit (by decide),
    replaceFrom_of_not_infix absent]
  simp only [List.append_assoc, tail, feed, String.toList_append, helperLines, unlines, List.flatMap_cons]
  simp

/-- The lines below the head of the helper function close its brace, and declare a number of their own
only. -/
theorem helperBody_facts : openAfter ['\x7b'] (helperBody.map String.toList) = some [] ∧
    ∀ line ∈ helperBody.map String.toList, '\n' ∉ line ∧ isSolid line ∧
      (line.dropWhile (· = ' ')).head? ≠ some '#' ∧
      wordBehind? procedureLead line = none ∧ wordBehind? "for (int " line = none ∧
        (wordBehind? "int " line).all (· = "c") := by
  decide +kernel

end BlockCompiler

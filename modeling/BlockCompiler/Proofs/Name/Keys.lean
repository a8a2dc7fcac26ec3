import BlockCompiler.Name.Registry
import Mathlib.Data.List.Basic
import Mathlib.Data.List.Infix
import Mathlib.Tactic.Basic

/-!
The keys of names. The word for one category ends in the word for another, so two keys are told apart only
because the lower-case form of a name has no capital letter of ASCII.
-/

namespace BlockCompiler

/-- A code point above the capital letters stays above them under runs that all lead above them. -/
theorem mapCase_above {runs : List CaseRun} {c : Nat} (above : 90 < c)
    (leads : ∀ run ∈ runs, 90 < (run.1 : Int) + run.2.2.2) : 90 < mapCase runs c := by
  induction runs with
  | nil => exact above
  | cons run rest ih =>
    obtain ⟨first, last, step, distance⟩ := run
    have here : 90 < (first : Int) + distance := leads _ List.mem_cons_self
    have later := ih fun other member => leads other (List.mem_cons_of_mem _ member)
    unfold mapCase
    split
    · exact above
    · split
      · omega
      · exact later

/-- The first run takes the capital letters of ASCII, and all others lead far above. -/
theorem mapCase_lowerRuns (c : Nat) : mapCase lowerRuns c < 65 ∨ 90 < mapCase lowerRuns c := by
  have leads : ∀ run ∈ lowerRuns.tail, 90 < (run.1 : Int) + run.2.2.2 := by decide +kernel
  have runs : lowerRuns = (0x41, 0x5a, 1, 0x20) :: lowerRuns.tail := rfl
  rw [runs]
  unfold mapCase
  split
  · exact Or.inl ‹_›
  · split
    · right
      omega
    · rename_i notBefore notIn
      have above : 90 < c := by
        simp only [Nat.mod_one, beq_self_eq_true, Bool.and_true, decide_eq_true_eq] at notIn
        omega
      exact Or.inr (mapCase_above above leads)

theorem isUpper_ofNat {n : Nat} (outside : n < 65 ∨ 90 < n) : (Char.ofNat n).isUpper = false := by
  by_cases valid : n.isValidChar
  · have value : (Char.ofNat n).toNat = n := congrArg Char.toNat (dif_pos valid)
    have bounds : ¬ (65 ≤ (Char.ofNat n).toNat ∧ (Char.ofNat n).toNat ≤ 90) := by omega
    have shape : (Char.ofNat n).isUpper = decide ((Char.ofNat n).val ≥ 65 ∧ (Char.ofNat n).val ≤ 90) := rfl
    simpa [shape, UInt32.le_iff_toNat_le, ← Char.toNat_val] using bounds
  · rw [show Char.ofNat n = Char.ofNat 0 from (dif_neg valid).trans rfl]
    decide

theorem isUpper_lowerAfter (before text : List Char) : ∀ c ∈ lowerAfter before text, c.isUpper = false := by
  induction text generalizing before with
  | nil => simp [lowerAfter]
  | cons d rest ih =>
    intro c member
    simp only [lowerAfter, List.mem_append] at member
    rcases member with here | later
    · split at here
      · simp only [List.mem_cons, List.not_mem_nil, or_false] at here
        rcases here with rfl | rfl <;> decide
      · split at here
        · simp only [List.mem_cons, List.not_mem_nil, or_false] at here
          subst here
          split <;> decide
        · simp only [List.mem_cons, List.not_mem_nil, or_false] at here
          subst here
          exact isUpper_ofNat (mapCase_lowerRuns _)
    · exact ih _ c later

theorem isUpper_lower (text : String) {c : Char} (member : c ∈ (lower text).toList) : c.isUpper = false := by
  rw [lower, String.toList_ofList] at member
  exact isUpper_lowerAfter [] _ c member

/-- What stands before the last underscore and category word of a key is the lower-case form alone. -/
theorem toList_nameKey (name : String) (category : NameCategory) :
    (nameKey name category).toList = (lower name).toList ++ ('_' :: category.word.toList) := by
  simp [nameKey]

theorem NameCategory.word_capital (category : NameCategory) :
    ∃ first rest, category.word.toList = first :: rest ∧ first.isUpper = true := by
  cases category <;> exact ⟨_, _, rfl, by decide⟩

theorem NameCategory.word_inj {c d : NameCategory} (same : c.word = d.word) : c = d := by
  cases c <;> cases d <;> simp_all [NameCategory.word]

/-- Between the underscore of one key and that of another there would be a letter of a category word, and
these are capital. -/
theorem category_of_overlap {middle : List Char} {c d : NameCategory}
    (lowered : ∀ x ∈ middle, x.isUpper = false)
    (overlap : middle ++ ('_' :: c.word.toList) = '_' :: d.word.toList) : c = d := by
  obtain ⟨first, rest, word, capital⟩ := d.word_capital
  match middle with
  | [] =>
    simp only [List.nil_append, List.cons.injEq, true_and] at overlap
    exact NameCategory.word_inj (String.toList_inj.mp overlap)
  | [mark] =>
    simp only [List.cons_append, List.nil_append, word, List.cons.injEq] at overlap
    rw [← overlap.2.1] at capital
    exact absurd capital (by decide)
  | mark :: letter :: more =>
    simp only [List.cons_append, word, List.cons.injEq] at overlap
    rw [← overlap.2.1, lowered letter (by simp)] at capital
    exact absurd capital (by decide)

/-- Keys are the same only for names that differ in nothing but case, and for one category. -/
theorem nameKey_inj {n m : String} {c d : NameCategory} :
    nameKey n c = nameKey m d ↔ lower n = lower m ∧ c = d := by
  constructor
  · intro same
    have chars := congrArg String.toList same
    rw [toList_nameKey, toList_nameKey] at chars
    have category : c = d := by
      rcases List.append_eq_append_iff.mp chars with ⟨middle, front, back⟩ | ⟨middle, front, back⟩
      · refine (category_of_overlap (fun x member => ?_) back.symm).symm
        exact isUpper_lower m (by rw [front]; exact List.mem_append_right _ member)
      · refine category_of_overlap (fun x member => ?_) back.symm
        exact isUpper_lower n (by rw [front]; exact List.mem_append_right _ member)
    subst category
    exact ⟨String.toList_inj.mp (List.append_cancel_right chars), rfl⟩
  · rintro ⟨same, rfl⟩
    rw [nameKey, nameKey, same]

end BlockCompiler

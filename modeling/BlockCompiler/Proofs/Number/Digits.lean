import BlockCompiler.Number.Numeral
import Mathlib.Data.List.DropRight

/-!
Decimal digits: what the readers of numerals make of them.
-/

namespace BlockCompiler

/-- Decimal digits, at least one. -/
def AreDigits (text : List Char) : Prop := text ≠ [] ∧ ∀ c ∈ text, c.isDigit

/-- The form of numerals: digits, perhaps a point with digits behind it, and perhaps an exponent. -/
structure IsNumeralText (text : List Char) : Prop where
  parts : ∃ whole fraction exponent, text = whole ++ (fraction ++ exponent) ∧ AreDigits whole ∧
    (fraction = [] ∨ ∃ digits, fraction = '.' :: digits ∧ AreDigits digits) ∧
    (exponent = [] ∨ ∃ sign digits, exponent = 'e' :: sign :: digits ∧ (sign = '-' ∨ sign = '+') ∧
      AreDigits digits)

/-- The sign before a literal number. -/
def signText (minus : Bool) : String := if minus then "-" else ""

theorem areDigits_toString (n : Nat) : AreDigits (toString n).toList := by
  rw [Nat.toString_eq_repr, Nat.toList_repr]
  constructor
  · exact List.ne_nil_of_length_pos Nat.length_toDigits_pos
  · intro c among
    exact Nat.isDigit_of_mem_toDigits (by decide) (by decide) among

section Characters

variable {c : Char}

theorem toNat_of_isDigit (digit : c.isDigit) : 48 ≤ c.toNat ∧ c.toNat ≤ 57 := by
  simp only [Char.isDigit, Bool.and_eq_true, decide_eq_true_eq, ge_iff_le, UInt32.le_iff_toNat_le] at digit
  exact digit

theorem digitValue?_of_isDigit (digit : c.isDigit) : digitValue? c = some (c.toNat - 48) := by
  obtain ⟨low, high⟩ := toNat_of_isDigit digit
  have zero : digitZeros.find? (fun first => first ≤ c.toNat && c.toNat < first + 10) = some 0x30 := by
    have here : (decide (0x30 ≤ c.toNat) && decide (c.toNat < 0x30 + 10)) = true := by
      simp only [Bool.and_eq_true, decide_eq_true_eq]
      omega
    exact List.find?_cons_of_pos here
  rw [digitValue?, zero]
  rfl

theorem isDigit_of_isDigit (digit : c.isDigit) : isDigit c := by
  rw [isDigit, digitValue?_of_isDigit digit]
  rfl

theorem not_isBlank_of_range (low : 33 ≤ c.toNat) (high : c.toNat ≤ 126) : isBlank c = false := by
  have a : ¬ c.toNat ≤ 0xd := by omega
  have b : ¬ c.toNat < 9 := by omega
  have d : ¬ c.toNat ≤ 0x20 := by omega
  have e : c.toNat < 0x85 := by omega
  simp [isBlank, blankRanges, inRanges, a, b, d, e]

theorem not_isNumeralBlank_of_range (low : 33 ≤ c.toNat) (high : c.toNat ≤ 126) :
    isNumeralBlank c = false := by
  have plain : isPlainBlank c = false := by
    have space : c ≠ ' ' := by
      rintro rfl
      exact absurd low (by decide)
    have control : ¬ c.toNat ≤ 13 := by omega
    simp [isPlainBlank, space, control]
  simp [isNumeralBlank, plain, not_isBlank_of_range low high]

end Characters

/-- Nothing is trimmed from a text whose two ends stay. -/
theorem trimEnds_of_ends {out : Char → Bool} {text : List Char} (first : ∀ c ∈ text.head?, out c = false)
    (last : ∀ c ∈ text.getLast?, out c = false) : trimEnds out text = text := by
  have kept : ∀ {text : List Char}, (∀ c ∈ text.head?, out c = false) → text.dropWhile out = text := by
    intro text ends
    cases text with
    | nil => rfl
    | cons c rest => simp [ends c rfl]
  have back : ∀ c ∈ text.reverse.head?, out c = false := by
    rw [List.head?_reverse]
    exact last
  rw [trimEnds, kept first, kept back, List.reverse_reverse]

/-- Nothing is left to trim of a trimmed text. -/
theorem trimEnds_idem (out : Char → Bool) (text : List Char) :
    trimEnds out (trimEnds out text) = trimEnds out text := by
  refine trimEnds_of_ends (fun c headed => ?_) (fun c ended => ?_)
  · -- a text that is trimmed behind starts as before
    obtain ⟨rest, shape⟩ : trimEnds out text <+: text.dropWhile out := List.rdropWhile_prefix _ _
    have first : (text.dropWhile out).head? = some c := by
      rw [← shape, List.head?_append, Option.mem_def.mp headed, Option.some_or]
    simpa [first] using List.head?_dropWhile_not out text
  · rw [trimEnds, List.getLast?_reverse, Option.mem_def] at ended
    simpa [ended] using List.head?_dropWhile_not out (text.dropWhile out).reverse

theorem trimEnds_cons {out : Char → Bool} {first : Char} (rest : List Char) (kept : out first = false) :
    trimEnds out (first :: rest) = first :: (rest.reverse.dropWhile out).reverse := by
  rw [trimEnds, List.dropWhile_cons, if_neg (by simp [kept]), List.reverse_cons]
  cases shape : rest.reverse.dropWhile out with
  | nil =>
    rw [List.dropWhile_append, shape]
    simp [kept]
  | cons c later =>
    rw [List.dropWhile_append, shape]
    simp

/-- The readers take all digits at the head of a text. -/
theorem takeDigits_digits {digits : List Char} (rest : List Char) (all : ∀ c ∈ digits, c.isDigit)
    (ends : ∀ c ∈ rest.head?, isDigit c = false ∧ c ≠ '_') :
    takeDigits (digits ++ rest) = (digits.map (·.toNat - 48), rest) := by
  have foreign : takeDigits rest = ([], rest) := by
    cases rest with
    | nil => rfl
    | cons c later =>
      obtain ⟨noDigit, underscore⟩ := ends c rfl
      have none : digitValue? c = none := by simpa [isDigit] using noDigit
      unfold takeDigits
      split
      all_goals simp_all
  induction digits with
  | nil => exact foreign
  | cons c digits ih =>
    have value := digitValue?_of_isDigit (all c (by simp))
    have later := ih fun d among => all d (by simp [among])
    have underscore : ∀ more, digits ++ rest ≠ '_' :: more := by
      intro more shape
      cases digits with
      | nil =>
        rw [List.nil_append] at shape
        exact (ends '_' (by simp [shape])).2 rfl
      | cons d digits =>
        have digit := all d (by simp)
        rw [(List.cons.inj shape).1] at digit
        cases digit
    have own : c ≠ '_' := by
      rintro rfl
      exact absurd (all '_' (by simp)) (by decide)
    rw [List.cons_append]
    generalize digits ++ rest = tail at later underscore
    have none : takeDigits [] = ([], []) := rfl
    unfold takeDigits
    split
    all_goals simp_all

theorem ofDigits_values (digits : List Char) :
    ofDigits (digits.map (·.toNat - 48)) = Nat.ofDigitChars 10 digits 0 := by
  rw [ofDigits, Nat.ofDigitChars_eq_foldl, List.foldl_map]
  rfl

theorem ofDigits_lt {digits : List Char} (all : ∀ c ∈ digits, c.isDigit) :
    ofDigits (digits.map (·.toNat - 48)) < tenTo digits.length := by
  rw [ofDigits_values]
  induction digits with
  | nil => decide
  | cons c digits ih =>
    have later := ih fun d among => all d (by simp [among])
    obtain ⟨low, high⟩ := toNat_of_isDigit (all c (by simp))
    have value : '0'.toNat = 48 := rfl
    have lead : tenTo digits.length * (c.toNat - 48) ≤ tenTo digits.length * 9 :=
      Nat.mul_le_mul_left _ (by omega)
    have next : tenTo (digits.length + 1) = tenTo digits.length * 10 := rfl
    have same : 10 ^ digits.length = tenTo digits.length := rfl
    rw [Nat.ofDigitChars_cons, Nat.ofDigitChars_eq_ofDigitChars_zero, Nat.mul_zero, Nat.zero_add, value, same,
      List.length_cons, next]
    omega

theorem ofDigits_toString (n : Nat) : ofDigits ((toString n).toList.map (·.toNat - 48)) = n := by
  rw [ofDigits_values, Nat.toString_eq_repr, Nat.toList_repr, Nat.ofDigitChars_ten_toDigits]

theorem length_toString_le {n limit : Nat} (positive : 0 < limit) :
    (toString n).toList.length ≤ limit ↔ n < tenTo limit := by
  rw [Nat.toString_eq_repr, Nat.toList_repr]
  exact Nat.length_toDigits_le_iff (by decide) positive

end BlockCompiler

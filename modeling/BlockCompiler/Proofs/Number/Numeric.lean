import BlockCompiler.Document.Schema
import BlockCompiler.Emission.Template.Math
import BlockCompiler.Proofs.Number.Digits

/-!
Numeric values: whatever the schema takes for a number is read as one, although other blanks are dropped
around it by then.
-/

namespace BlockCompiler

theorem inRanges_iff {ranges : List (Nat × Nat)} {c : Nat} (within : inRanges ranges c) :
    ∃ range ∈ ranges, range.1 ≤ c ∧ c ≤ range.2 := by
  induction ranges with
  | nil => cases within
  | cons range ranges ih =>
    obtain ⟨first, last⟩ := range
    rw [inRanges] at within
    split_ifs at within with before
    rcases Bool.or_eq_true _ _ ▸ within with here | later
    · exact ⟨_, List.mem_cons_self .., Nat.le_of_not_lt before, by simpa using here⟩
    · obtain ⟨range, among, inside⟩ := ih later
      exact ⟨range, List.mem_cons_of_mem _ among, inside⟩

theorem not_isBlank_of_isDigit {c : Char} (digit : isDigit c) : isBlank c = false := by
  by_contra blank
  have apart : ∀ start ∈ digitZeros, ∀ range ∈ blankRanges, start + 10 ≤ range.1 ∨ range.2 < start := by
    decide
  obtain ⟨value, found⟩ := Option.isSome_iff_exists.mp digit
  obtain ⟨start, first, _⟩ := Option.map_eq_some_iff.mp found
  obtain ⟨range, among, low, high⟩ := inRanges_iff (by simpa [isBlank] using blank)
  have within := List.find?_some first
  simp only [Bool.and_eq_true, decide_eq_true_eq] at within
  have := apart start (List.mem_of_find?_eq_some first) range among
  omega

theorem isBlank_of_isNumeralBlank {c : Char} (blank : isNumeralBlank c) : isBlank c := by
  simp only [isNumeralBlank, isPlainBlank, Bool.or_eq_true, Bool.and_eq_true, beq_iff_eq,
    decide_eq_true_eq] at blank
  rcases blank with (rfl | ⟨low, high⟩) | ⟨_, blank⟩
  · decide
  · have late : ¬ c.toNat < 9 := by omega
    have early : c.toNat ≤ 0xd := by omega
    simp [isBlank, blankRanges, inRanges, late, early]
  · exact blank

theorem toLower_of_isBlank {c : Char} (blank : isBlank c) : c.toLower = c := by
  have small : ¬ (c.val ≥ 'A'.val ∧ c.val ≤ 'Z'.val) := by
    rintro ⟨low, high⟩
    have first : 65 ≤ c.toNat := UInt32.le_iff_toNat_le.mp low
    have last : c.toNat ≤ 90 := UInt32.le_iff_toNat_le.mp high
    obtain ⟨range, among, inside⟩ := inRanges_iff blank
    have apart : ∀ range ∈ blankRanges, range.2 < 65 ∨ 90 < range.1 := by decide
    have := apart range among
    omega
  exact dif_neg small

/-- The readers of digits take nothing but digits and underscores. -/
theorem takeDigits_split (text : List Char) :
    ∃ taken, text = taken ++ (takeDigits text).2 ∧ ∀ c ∈ taken, isBlank c = false := by
  have digit : ∀ {c : Char} {d : Nat}, digitValue? c = some d → isBlank c = false := by
    intro c d value
    exact not_isBlank_of_isDigit (by rw [isDigit, value]; rfl)
  fun_induction takeDigits text
  all_goals try exact ⟨[], rfl, by simp⟩
  case case3 c own d value => exact ⟨[c], rfl, by simpa using digit value⟩
  case case5 c next rest own d value follows ds later taken ih =>
    obtain ⟨others, split, plain⟩ := ih
    rw [taken] at split
    refine ⟨c :: '_' :: others, by rw [split]; rfl, ?_⟩
    intro e among
    rcases List.mem_cons.mp among with rfl | among
    · exact digit value
    rcases List.mem_cons.mp among with rfl | among
    · decide
    · exact plain e among
  case case6 c next rest own d value foreign => exact ⟨[c], rfl, by simpa using digit value⟩
  case case8 c rest own filled single d value ds later taken ih =>
    obtain ⟨others, split, plain⟩ := ih
    rw [taken] at split
    refine ⟨c :: others, by rw [split]; rfl, ?_⟩
    intro e among
    rcases List.mem_cons.mp among with rfl | among
    · exact digit value
    · exact plain e among

theorem not_isBlank_of_all {text : List Char} (all : text.all fun c => !isBlank c) :
    ∀ c ∈ text, isBlank c = false := by
  simpa using all

theorem takeSign_split (text : List Char) :
    ∃ sign, text = sign ++ (takeSign text).2 ∧ ∀ c ∈ sign, isBlank c = false := by
  unfold takeSign
  split
  · exact ⟨['-'], rfl, not_isBlank_of_all (by decide)⟩
  · exact ⟨['+'], rfl, not_isBlank_of_all (by decide)⟩
  · exact ⟨[], rfl, by simp⟩

theorem forall_append {p : Char → Prop} {before after : List Char} (first : ∀ c ∈ before, p c)
    (second : ∀ c ∈ after, p c) : ∀ c ∈ before ++ after, p c := by
  intro c among
  exact (List.mem_append.mp among).elim (first c) (second c)

theorem not_isBlank_of_readExponent? {text : List Char} {power : Int}
    (read : readExponent? text = some power) :
    ∀ c ∈ text, isBlank c = false := by
  unfold readExponent? at read
  split at read
  · simp
  · rename_i mark rest
    split_ifs at read with letter
    obtain ⟨sign, signed, plainSign⟩ := takeSign_split rest
    obtain ⟨taken, split, plain⟩ := takeDigits_split (takeSign rest).2
    have whole : (takeDigits (takeSign rest).2).2 = [] := by
      dsimp only at read
      split at read
      · cases read
      · rename_i same
        rw [same]
      · cases read
    rw [whole, List.append_nil] at split
    have plainMark : isBlank mark = false := by
      rcases Bool.or_eq_true _ _ ▸ letter with small | large
      · rw [beq_iff_eq.mp small]
        decide
      · rw [beq_iff_eq.mp large]
        decide
    have plainRest : ∀ c ∈ rest, isBlank c = false := by
      rw [signed, split]
      exact forall_append plainSign plain
    intro c among
    rcases List.mem_cons.mp among with rfl | among
    · exact plainMark
    · exact plainRest c among

/-- What is read as a decimal has no blanks in it. -/
theorem not_isBlank_of_readMagnitude? {negative : Bool} {body : List Char} {value : Binary64}
    (read : readMagnitude? negative body = some value) : ∀ c ∈ body, isBlank c = false := by
  obtain ⟨whole, split, plain⟩ := takeDigits_split body
  unfold readMagnitude? at read
  generalize takeDigits body = first at split read
  obtain ⟨digits, rest⟩ := first
  rw [split]
  refine forall_append plain ?_
  have parts : ∃ point later power, rest = point ++ later ∧ (∀ c ∈ point, isBlank c = false) ∧
      readExponent? later = some power := by
    dsimp only at read
    split at read
    · rename_i point
      obtain ⟨fraction, splitFraction, plainFraction⟩ := takeDigits_split point
      split_ifs at read
      obtain ⟨power, exponent, _⟩ := Option.map_eq_some_iff.mp read
      refine ⟨'.' :: fraction, _, power, by rw [List.cons_append, ← splitFraction], ?_, exponent⟩
      intro c among
      rcases List.mem_cons.mp among with rfl | among
      · decide
      · exact plainFraction c among
    · split_ifs at read
      obtain ⟨power, exponent, _⟩ := Option.map_eq_some_iff.mp read
      exact ⟨[], rest, power, rfl, by simp, exponent⟩
  obtain ⟨point, later, power, rfl, plainPoint, exponent⟩ := parts
  exact forall_append plainPoint (not_isBlank_of_readExponent? exponent)

/-- A text of letters that stands for a number has no blanks in it. -/
theorem not_isBlank_of_word {body : List Char} {word : String}
    (same : String.ofList (body.map Char.toLower) = word) (plain : ∀ c ∈ word.toList, isBlank c = false) :
    ∀ c ∈ body, isBlank c = false := by
  intro c among
  by_contra blank
  have blank : isBlank c := by simpa using blank
  have inWord : c.toLower ∈ word.toList := by
    rw [← same, String.toList_ofList]
    exact List.mem_map_of_mem among
  rw [toLower_of_isBlank blank] at inWord
  rw [plain c inWord] at blank
  cases blank

theorem not_isBlank_of_readDecimal {text : String} {value : Binary64} (read : readDecimal text = .ok value) :
    ∀ c ∈ trimEnds isNumeralBlank text.toList, isBlank c = false := by
  obtain ⟨sign, signed, plainSign⟩ := takeSign_split (trimEnds isNumeralBlank text.toList)
  rw [signed]
  refine forall_append plainSign ?_
  unfold readDecimal at read
  generalize takeSign (trimEnds isNumeralBlank text.toList) = parts at read
  obtain ⟨negative, body⟩ := parts
  dsimp only at read ⊢
  split_ifs at read with infinite nan
  · rcases infinite with short | long
    · exact not_isBlank_of_word short (not_isBlank_of_all (by decide))
    · exact not_isBlank_of_word long (not_isBlank_of_all (by decide))
  · exact not_isBlank_of_word nan (not_isBlank_of_all (by decide))
  · split at read
    · rename_i magnitude
      exact not_isBlank_of_readMagnitude? magnitude
    · cases read

theorem trimEnds_between {out : Char → Bool} {before core after : List Char} (first : ∀ c ∈ before, out c)
    (inside : ∀ c ∈ core, out c = false) (last : ∀ c ∈ after, out c) :
    trimEnds out (before ++ (core ++ after)) = core := by
  have behind : ∀ c ∈ after.reverse, out c := fun c among => last c (List.mem_reverse.mp among)
  have kept : ∀ {run : List Char}, (∀ c ∈ run, out c = false) → run.dropWhile out = run := by
    intro run plain
    cases run with
    | nil => rfl
    | cons c run => rw [List.dropWhile_cons, if_neg (by simp [plain c (by simp)])]
  have front : (core ++ after).dropWhile out = if core = [] then [] else core ++ after := by
    split_ifs with empty
    · subst empty
      exact List.dropWhile_eq_nil_iff.mpr last
    · obtain ⟨c, rest, rfl⟩ := List.exists_cons_of_ne_nil empty
      rw [List.cons_append, List.dropWhile_cons, if_neg (by simp [inside c (by simp)])]
  rw [trimEnds, List.dropWhile_append_of_pos first, front]
  split_ifs with empty
  · rw [empty]
    rfl
  · rw [List.reverse_append, List.dropWhile_append_of_pos behind,
      kept (fun c among => inside c (List.mem_reverse.mp among)), List.reverse_reverse]

theorem trimEnds_split (out : Char → Bool) (text : List Char) :
    ∃ before after, text = before ++ (trimEnds out text ++ after) ∧ (∀ c ∈ before, out c) ∧
    ∀ c ∈ after, out c := by
  refine ⟨text.takeWhile out, ((text.dropWhile out).reverse.takeWhile out).reverse, ?_, ?_, ?_⟩
  · rw [trimEnds, ← List.reverse_append, List.takeWhile_append_dropWhile, List.reverse_reverse,
      List.takeWhile_append_dropWhile]
  · exact fun c among => List.mem_takeWhile_imp among
  · exact fun c among => List.mem_takeWhile_imp (List.mem_reverse.mp among)

/-- Trimming more than the readers do changes nothing about a text that has blanks only at its ends. -/
theorem trimEnds_trimEnds {text : List Char} (plain : ∀ c ∈ trimEnds isNumeralBlank text, isBlank c = false) :
    trimEnds isNumeralBlank (trimEnds isBlank text) = trimEnds isNumeralBlank text := by
  obtain ⟨before, after, split, first, last⟩ := trimEnds_split isNumeralBlank text
  generalize trimEnds isNumeralBlank text = core at plain split ⊢
  have kept : ∀ c ∈ core, isNumeralBlank c = false := by
    intro c among
    by_contra blank
    have wider := isBlank_of_isNumeralBlank (by simpa using blank)
    rw [plain c among] at wider
    cases wider
  rw [split, trimEnds_between (fun c among => isBlank_of_isNumeralBlank (first c among)) plain
    (fun c among => isBlank_of_isNumeralBlank (last c among))]
  have alone : trimEnds isNumeralBlank ([] ++ (core ++ [])) = core :=
    trimEnds_between (by simp) kept (by simp)
  rwa [List.nil_append, List.append_nil] at alone

/-- A decimal is still read when all blanks around it are dropped. -/
theorem readDecimal_trimmed {text : String} {value : Binary64} (read : readDecimal text = .ok value) :
    readDecimal (String.ofList (trimEnds isBlank text.toList)) = .ok value := by
  have same := trimEnds_trimEnds (not_isBlank_of_readDecimal read)
  unfold readDecimal at read ⊢
  rw [String.toList_ofList, same]
  generalize takeSign (trimEnds isNumeralBlank text.toList) = parts at read ⊢
  obtain ⟨negative, body⟩ := parts
  dsimp only at read ⊢
  split_ifs at read ⊢ with infinite nan
  · exact read
  · exact read
  · cases magnitude : readMagnitude? negative body with
    | some found => simpa [magnitude] using read
    | none => simp [magnitude] at read

/-- Whatever the schema takes for a number is read as one. -/
theorem numberOf_isNumeric {value : Json} (numeric : value.isNumeric) : ∃ n, numberOf value = .ok n := by
  cases value with
  | number n => exact ⟨n, rfl⟩
  | text text =>
    cases read : readDecimal text with
    | error error => simp [Json.isNumeric, read, Except.toOption] at numeric
    | ok decimal =>
      have trimmed := readDecimal_trimmed read
      unfold numberOf
      simp only [Json.asText?, Option.getD_some]
      cases readWhole (String.ofList (trimEnds isBlank text.toList)) with
      | ok whole => exact ⟨.int whole, rfl⟩
      | error error => exact ⟨.float decimal, by simp only [trimmed]; rfl⟩
  | _ => cases numeric

end BlockCompiler

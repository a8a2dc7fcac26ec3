import BlockCompiler.Proofs.Emission.Elements
import BlockCompiler.Proofs.Number.Shortest
import Mathlib.Data.Rat.Floor

/-!
Decimals as indices: they lose what is behind their point before they are moved, so that they are moved as
they would be in the code only where they do not cross zero.
-/

namespace BlockCompiler

/-- The whole number that is left of a number when it is cut off towards zero. -/
def truncated (x : ℚ) : Int := x.num.tdiv x.den

section Truncated

theorem truncated_neg (x : ℚ) : truncated (-x) = -truncated x := by
  rw [truncated, truncated, Rat.neg_num, Rat.neg_den, Int.neg_tdiv]

theorem truncated_of_between {n : Nat} {x : ℚ} (low : (n : ℚ) ≤ x) (high : x < n + 1) : truncated x = n := by
  have positive : 0 ≤ x := (Nat.cast_nonneg n).trans low
  have floor : ⌊x⌋ = (n : Int) := Int.floor_eq_iff.mpr ⟨by exact_mod_cast low, by exact_mod_cast high⟩
  rw [truncated, Int.tdiv_eq_ediv_of_nonneg (Rat.num_nonneg.mpr positive), ← Rat.floor_def', ← floor]

/-- What is left of a positive number may be moved in place of it just where it is not moved beyond zero. -/
theorem moved_eq_truncated {n : Nat} {x : ℚ} (low : (n : ℚ) < x) (high : x < n + 1) (distance : Int) :
    n + distance = truncated (x + distance) ↔ 0 < x * (x + distance) := by
  have positive : 0 < x := (Nat.cast_nonneg n).trans_lt low
  rw [mul_pos_iff_of_pos_left positive]
  rcases Int.lt_or_le (n + distance) 0 with below | above
  · -- The number is moved to the other side of zero, and nearer to it than what is left of it.
    obtain ⟨k, same⟩ := Int.eq_ofNat_of_zero_le (show 0 ≤ -(n + distance + 1) by omega)
    have cast : (k : ℚ) = -(n + distance + 1) := by exact_mod_cast same.symm
    have cut : truncated (-(x + distance)) = k := truncated_of_between (by linarith) (by linarith)
    rw [truncated_neg] at cut
    have apart : ¬ (n + distance = truncated (x + distance)) := by omega
    have negative : ¬ 0 < x + distance := by
      have : (0 : ℚ) ≤ k := Nat.cast_nonneg k
      linarith
    exact iff_of_false apart negative
  · obtain ⟨k, same⟩ := Int.eq_ofNat_of_zero_le above
    have cast : (k : ℚ) = n + distance := by exact_mod_cast same.symm
    have cut : truncated (x + distance) = k := truncated_of_between (by linarith) (by linarith)
    have : (0 : ℚ) ≤ k := Nat.cast_nonneg k
    exact iff_of_true (by omega) (by linarith)

/-- The same for a number of either sign. -/
theorem signed_moved_eq_truncated {n : Nat} {x : ℚ} (low : (n : ℚ) < x) (high : x < n + 1)
    (minus negate : Bool) (distance : Int) :
    let number := if minus then -x else x
    ((if negate then -(Binary64.signed minus n + distance) else Binary64.signed minus n + distance) =
      truncated (if negate then -(number + distance) else number + distance)) ↔
      0 < number * (number + distance) := by
  intro number
  have forward : Binary64.signed minus n + distance = truncated (number + distance) ↔
      0 < number * (number + distance) := by
    cases minus with
    | false => exact moved_eq_truncated low high distance
    | true =>
      have turned := moved_eq_truncated low high (-distance)
      have below : number = -x := if_pos rfl
      have sum : number + distance = -(x + (-distance : Int)) := by
        rw [below]
        push_cast
        ring
      have product : number * (number + distance) = x * (x + (-distance : Int)) := by
        rw [sum, below]
        ring
      rw [product, ← turned, sum, truncated_neg, Binary64.signed, if_pos rfl]
      omega
  cases negate with
  | false => exact forward
  | true => rw [if_pos rfl, if_pos rfl, truncated_neg, neg_inj, forward]

end Truncated

/-- A block is the literal of a decimal that is plugged in: a sign, and digits before and behind a point. -/
structure BlockHead.IsDecimal (head : BlockHead) (minus : Bool) (whole fraction : List Char) : Prop where
  kind : BlockKind.ofName? head.type = some .number
  enabled : head.disabled = false
  inline : head.inline
  kept : ∀ x, head.field "NUM" = .number (.float x) → x.IsKept
  wholeDigits : AreDigits whole
  fractionDigits : AreDigits fraction
  shown : ∃ negative mantissa exponent,
    numberIn (head.field "NUM") = .ok (.float (.finite negative mantissa exponent)) ∧
    (Binary64.finite negative mantissa exponent).isWhole = false ∧
    (Binary64.finite negative mantissa exponent).text =
      signText minus ++ String.ofList (whole ++ '.' :: fraction)

/-- The numbers of fields are kept in 64 bits: those that fields hold, and those that are read from texts. -/
theorem isKept_of_numberIn {field : Json} (kept : ∀ x, field = .number (.float x) → x.IsKept) {x : Binary64}
    (found : numberIn field = .ok (.float x)) : x.IsKept := by
  unfold numberIn at found
  split_ifs at found with void
  · cases found
  cases field with
  | number value =>
    obtain rfl : value = .float x := Except.ok.inj found
    exact kept x rfl
  | bool value => cases found
  | _ =>
    unfold numberOf at found
    dsimp only at found
    split at found
    · cases found
    · generalize read : readDecimal _ = outcome at found
      cases outcome with
      | error error => cases found
      | ok value =>
        cases found
        exact readDecimal_kept read

section Decimals

variable {emitter : Emitter} {number : BlockHead} {minus : Bool} {whole fraction : List Char}

/-- The whole part of a decimal is that of the number that it is read as. -/
theorem BlockHead.IsDecimal.reads (decimal : number.IsDecimal minus whole fraction) :
    ∃ n : Nat, (n : ℚ) < decimalWorth false whole fraction ∧ decimalWorth false whole fraction < n + 1 ∧
      ∀ s, Yields (Site.wholeOf (signText minus ++ String.ofList (whole ++ '.' :: fraction))) s
      (Binary64.signed minus n) s := by
  obtain ⟨negative, mantissa, exponent, found, broken, shown⟩ := decimal.shown
  have nonzero := Binary64.mantissa_ne_zero broken
  obtain ⟨read, rfl, rounds⟩ :=
    Binary64.text_decimal (isKept_of_numberIn decimal.kept found) nonzero decimal.wholeDigits
      decimal.fractionDigits shown
  obtain ⟨low, high⟩ := rounds.whole_part (by simpa [Binary64.isWhole] using broken)
  refine ⟨_, low, high, fun s => ?_⟩
  rw [shown] at read
  rw [Site.wholeOf,
    if_neg (by simp [not_isWholeNumeral_decimal minus _ decimal.wholeDigits decimal.fractionDigits]), read]
  exact yields_pure.mpr ⟨rfl, rfl⟩

/-- The code of the literal of a decimal. -/
theorem yields_decimal (templates : emitter.templates = knownTemplates)
    (decimal : number.IsDecimal minus whole fraction) (s : Pass) :
    Yields (emitter.emit (.block number .nil .empty)) s
      (.value (signText minus ++ String.ofList (whole ++ '.' :: fraction)) (literalOrder minus)) s := by
  obtain ⟨negative, mantissa, exponent, found, broken, shown⟩ := decimal.shown
  have nonzero := Binary64.mantissa_ne_zero broken
  obtain ⟨_, rfl, _⟩ :=
    Binary64.text_decimal (isKept_of_numberIn decimal.kept found) nonzero decimal.wholeDigits
      decimal.fractionDigits shown
  refine yields_number templates decimal.kind decimal.enabled decimal.inline found ?_ s
  have order := Binary64.order_finite minus nonzero exponent
  simp only [numberLiteral, broken, Bool.false_eq_true, if_false, shown, order]
  rfl

end Decimals

/-- A decimal that is an index is moved at once, and loses what is behind its point before that: what is
written is the moved number, cut off towards zero, just where moving it does not take it beyond zero. Where
its sign needs parentheses, which is only where it is not moved, it stays as it is. Only a number that is too
long to be written is not written. -/
theorem Emitter.adjusted_decimal {emitter : Emitter} (templates : emitter.templates = knownTemplates)
    {head : BlockHead} {rows : Rows BlockHead RowHead} {next : Stack BlockHead RowHead} {site : Site}
    (here : emitter.site? (.block head rows next) = some site) {name : String} {number : BlockHead}
    (plugged : rows.at name = .block number .nil .empty) {minus : Bool} {whole fraction : List Char}
    (decimal : number.IsDecimal minus whole fraction) (before : Pass) (delta : Int) (negate : Bool)
    (order : Order) :
    ((order.forIndex (before.distance delta) negate).needsParens (literalOrder minus) = false → ∃ moved : Int,
      Runs (fun error => ¬ IsWritable moved ∧ error = .numeral .tooLongToWrite)
        (site.adjusted name delta negate order) before
        (fun text after => text = toString moved ∧ after = before) ∧
      let adjusted := decimalWorth minus whole fraction + before.distance delta
      (moved = truncated (if negate then -adjusted else adjusted) ↔
      0 < decimalWorth minus whole fraction * adjusted)) ∧
    ((order.forIndex (before.distance delta) negate).needsParens (literalOrder minus) →
      before.distance delta = 0 ∧
      Yields (site.adjusted name delta negate order) before
        (Site.shifted (parenthesized (signText minus ++ String.ofList (whole ++ '.' :: fraction))) 0 "0"
        negate order) before) := by
  obtain rfl : (⟨head, emitter.sockets rows, emitter.emit next⟩ : Site) = site := Option.some.inj here
  have yields := yields_decimal templates decimal before
  have numeral := @isNumeral_decimal (String.ofList (whole ++ '.' :: fraction)) whole fraction minus
    (by simp) decimal.wholeDigits
    decimal.fractionDigits
  obtain ⟨n, low, high, reads⟩ := decimal.reads
  generalize signText minus ++ String.ofList (whole ++ '.' :: fraction) = code at *
  constructor
  · intro fits
    refine ⟨_, runs_adjusted_numeral plugged yields fits numeral (reads before) rfl, ?_⟩
    have worth : decimalWorth minus whole fraction = if minus then -decimalWorth false whole fraction
        else decimalWorth false whole fraction := by
      cases minus <;> simp [decimalWorth, Binary64.signed, neg_div]
    rw [worth]
    exact signed_moved_eq_truncated low high minus negate _
  · intro tight
    have still : before.distance delta = 0 := by
      by_contra moves
      rw [Order.forIndex, if_pos moves] at tight
      cases minus <;> cases tight
    have filled : code ≠ "" := by
      rintro rfl
      cases numeral
    have value : ∀ default, Yields (Site.value ⟨head, emitter.sockets rows, emitter.emit next⟩ name
        (order.forIndex (before.distance delta) negate) default) before (parenthesized code) before := by
      intro default
      have placed :=
        @yields_value emitter number before head rows (emitter.emit next) name _ _ plugged yields filled
          (order.forIndex (before.distance delta) negate) default
      rwa [BlockCompiler.placed, if_pos tight] at placed
    have bracketed : isNumeral (parenthesized code) = false :=
      @not_isNumeral_of_head (parenthesized code) '(' (code.toList ++ [')']) (by simp [parenthesized])
        ⟨by decide, by decide, by decide⟩
        (by decide)
    have zero : writeWhole ((before.distance delta).natAbs : Int) = .ok "0" := by
      rw [still]
      exact writeWhole_of_writable (tenTo_pos _)
    refine ⟨still, ?_⟩
    unfold Site.adjusted
    rw [yields_get_bind]
    extract_lets oneBased distance asked
    refine yields_bind.mpr ⟨_, before, value _, ?_⟩
    have same : distance = before.distance delta := rfl
    rw [if_neg (by simp [bracketed]), same, zero, still]
    exact yields_pure.mpr ⟨rfl, rfl⟩

/-- The literal of a positive decimal that a field holds. -/
theorem isDecimal_of_float {head : BlockHead} {mantissa : Nat} {exponent : Int} {whole fraction : List Char}
    (kind : BlockKind.ofName? head.type = some .number) (plugged : head.disabled = false ∧ head.inline)
    (field : head.field "NUM" = .number (.float (.finite false mantissa exponent)))
    (kept : Binary64.Kept mantissa exponent)
    (broken : (Binary64.finite false mantissa exponent).isWhole = false)
    (shown : (Binary64.finite false mantissa exponent).text = String.ofList (whole ++ '.' :: fraction))
    (wholeDigits : AreDigits whole) (fractionDigits : AreDigits fraction) :
    head.IsDecimal false whole fraction := by
  refine ⟨kind, plugged.1, plugged.2, ?_, wholeDigits, fractionDigits, false, mantissa, exponent,
    ?_, broken, ?_⟩
  · intro x same
    rw [field] at same
    cases same
    exact kept
  · have filled : Json.isVoid (.number (.float (.finite false mantissa exponent))) = false := by
      simp [Json.isVoid, Number.isZero, Binary64.isZero, Binary64.mantissa_ne_zero broken]
    rw [field, numberIn, if_neg (by simp [filled])]
    rfl
  · rw [shown, signText, if_neg (by simp), String.empty_append]

/-- The second of two elements, at two and a half in a program that counts from one. -/
theorem Emitter.adjusted_decimal_second :
    let number : BlockHead :=
      { type := "math_number", fields := [("NUM", .number (.float (.finite false 5629499534213120 (-51))))],
        hasOutput := true, inline := true }
    let place : BlockHead := { type := "lists_getIndex", hasOutput := true, inline := false }
    let rows : Rows BlockHead RowHead := .cons ⟨.value, "AT"⟩ (.block number .nil .empty) .nil
    let emitter : Emitter := {}
    let ws : Workspace := { oneBased := true }
    number.IsDecimal false ['2'] ['5'] ∧ ∃ site, emitter.site? (.block place rows .empty) = some site ∧
      Runs (fun error => error = .numeral .tooLongToWrite) (site.adjusted "AT" 0 false .none)
        (emitter.start ws)
        fun text after => text = toString (truncated (decimalWorth false ['2'] ['5'] - 1)) ∧
          after = emitter.start ws := by
  intro number place rows emitter ws
  have decimal : number.IsDecimal false ['2'] ['5'] :=
    isDecimal_of_float (by decide) ⟨rfl, rfl⟩ rfl ⟨by decide, by decide, by decide, fun _ => by decide⟩
      (by decide +kernel)
      (by decide +kernel) ⟨by decide, List.forall_mem_singleton.mpr (by decide)⟩
        ⟨by decide, List.forall_mem_singleton.mpr (by decide)⟩
  have worth : decimalWorth false ['2'] ['5'] = 5 / 2 := by decide +kernel
  obtain ⟨moved, runs, same⟩ :=
    (@Emitter.adjusted_decimal emitter rfl place rows .empty _ rfl "AT" number rfl false ['2'] ['5']
      decimal (emitter.start ws) 0 false .none).1 (by decide)
  have down : (emitter.start ws).distance 0 = -1 := rfl
  have shifted : moved = truncated (decimalWorth false ['2'] ['5'] - 1) := by
    rw [down, worth] at same
    rw [worth, same.mpr (by norm_num), if_neg (by simp)]
    norm_num
  refine ⟨decimal, _, rfl, (runs.excuse fun error excused => excused.2).imp ?_⟩
  rintro text after ⟨rfl, rfl⟩
  exact ⟨by rw [shifted], rfl⟩

/-- Half of one is moved beyond zero in a program that counts from one: what is written is cut off before
that, and is not the moved number cut off. -/
theorem Emitter.adjusted_half :
    let number : BlockHead :=
      { type := "math_number", fields := [("NUM", .number (.float (.finite false 4503599627370496 (-53))))],
        hasOutput := true, inline := true }
    let place : BlockHead := { type := "lists_getIndex", hasOutput := true, inline := false }
    let rows : Rows BlockHead RowHead := .cons ⟨.value, "AT"⟩ (.block number .nil .empty) .nil
    let emitter : Emitter := {}
    let ws : Workspace := { oneBased := true }
    number.IsDecimal false ['0'] ['5'] ∧ ∃ site after, emitter.site? (.block place rows .empty) = some site ∧
      Yields (site.adjusted "AT" 0 false .none) (emitter.start ws) "-1" after ∧
      truncated (decimalWorth false ['0'] ['5'] + (emitter.start ws).distance 0) = 0 := by
  intro number place rows emitter ws
  have decimal : number.IsDecimal false ['0'] ['5'] :=
    isDecimal_of_float (by decide) ⟨rfl, rfl⟩ rfl ⟨by decide, by decide, by decide, fun _ => by decide⟩
      (by decide +kernel)
      (by decide +kernel) ⟨by decide, List.forall_mem_singleton.mpr (by decide)⟩
        ⟨by decide, List.forall_mem_singleton.mpr (by decide)⟩
  obtain ⟨after, yields⟩ := exists_yields_of_toOption
    (x := Site.adjusted ⟨place, emitter.sockets rows, emitter.emit .empty⟩ "AT" 0 false .none)
      (s := emitter.start ws)
    (a := "-1") (by decide +kernel)
  have down : (emitter.start ws).distance 0 = -1 := rfl
  have worth : decimalWorth false ['0'] ['5'] + (emitter.start ws).distance 0 = -1 / 2 := by
    rw [down]
    decide +kernel
  exact ⟨decimal, _, after, rfl, yields, by rw [worth]; decide +kernel⟩

end BlockCompiler

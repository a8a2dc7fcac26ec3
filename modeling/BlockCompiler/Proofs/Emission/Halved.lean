import BlockCompiler.Proofs.Emission.Asked
import BlockCompiler.Proofs.Emission.Compiled
import BlockCompiler.Proofs.Name.Keys

/-!
Names with lone halves of surrogate pairs, which a document may have and an identifier cannot be made of.
Whatever is loaded has a source as long as no such name is asked for.
-/

namespace BlockCompiler

section Keys

/-- Under runs that neither begin nor lead far up, a code point stays or is and remains far below. -/
theorem mapCase_below {runs : List CaseRun} {c : Nat}
    (low : ∀ run ∈ runs, run.2.1 < 0xd0000 ∧ (run.2.1 : Int) + run.2.2.2 < 0xd0000) :
    mapCase runs c = c ∨ c < 0xd0000 ∧ mapCase runs c < 0xd0000 := by
  induction runs with
  | nil => exact .inl rfl
  | cons run rest ih =>
    obtain ⟨first, last, step, distance⟩ := run
    obtain ⟨begins, leads⟩ := low _ List.mem_cons_self
    dsimp only at begins leads
    have later := ih fun other member => low other (List.mem_cons_of_mem _ member)
    unfold mapCase
    split
    · exact .inl rfl
    · split
      · rename_i inside
        simp only [Bool.and_eq_true, decide_eq_true_eq] at inside
        exact .inr ⟨by omega, by omega⟩
      · exact later

/-- A number that is no code point stands for the least one. -/
theorem toNat_ofNat_le (n : Nat) : (Char.ofNat n).toNat ≤ n := by
  by_cases valid : n.isValidChar
  · exact Nat.le_of_eq (congrArg Char.toNat (dif_pos valid))
  · rw [show Char.ofNat n = Char.ofNat 0 from (dif_neg valid).trans rfl]
    exact Nat.zero_le n

theorem isStandIn_of_below {c : Char} (below : c.toNat < 0xd0000) : isStandIn c = false := by
  simp only [isStandIn, Bool.and_eq_false_iff, decide_eq_false_iff_not]
  omega

/-- The letters lie far below the characters that stand in for halves, so each of these is its own lower
case. -/
theorem isStandIn_mapCase (c : Char) : isStandIn (Char.ofNat (mapCase lowerRuns c.toNat)) = isStandIn c := by
  have low : ∀ run ∈ lowerRuns, run.2.1 < 0xd0000 ∧ (run.2.1 : Int) + run.2.2.2 < 0xd0000 := by decide +kernel
  rcases mapCase_below (c := c.toNat) low with same | ⟨before, after⟩
  · rw [same, Char.ofNat_toNat]
  · rw [isStandIn_of_below (Nat.lt_of_le_of_lt (toNat_ofNat_le _) after), isStandIn_of_below before]

theorem any_isStandIn_lowerAfter (before text : List Char) :
    (lowerAfter before text).any isStandIn = text.any isStandIn := by
  induction text generalizing before with
  | nil => rfl
  | cons c rest ih =>
    rw [lowerAfter, List.any_append, List.any_cons, ih]
    congr 1
    have plain {code : Nat} (same : c.toNat == code) (below : code < 0xd0000) : isStandIn c = false :=
      isStandIn_of_below (beq_iff_eq.mp same ▸ below)
    split
    · rename_i dotted
      rw [plain dotted (by decide)]
      decide
    · split
      · rename_i sigma
        rw [plain sigma (by decide)]
        split <;> decide
      · rw [List.any_cons, isStandIn_mapCase, List.any_nil, Bool.or_false]

/-- A key shows whether its name has a half. -/
@[simp] theorem holdsHalf_nameKey (name : String) (category : NameCategory) :
    holdsHalf (nameKey name category) = holdsHalf name := by
  have own : ('_' :: category.word.toList).any isStandIn = false := by cases category <;> decide
  rw [holdsHalf, toList_nameKey, List.any_append, own, Bool.or_false, lower, String.toList_ofList,
    any_isStandIn_lowerAfter]
  rfl

end Keys

namespace Emitter

variable {emitter : Emitter} {ws : Workspace}

/-- A name with a half that a pass asks for is one that the workspace gives. -/
theorem asks_of_halvedKey? (templates : emitter.templates = knownTemplates) {key : String}
    (found : emitter.halvedKey? ws = some key) :
    ∃ name category, ws.Asks name ∧ holdsHalf name ∧ nameKey name category = key := by
  have half := List.find?_some found
  have serves := (serves_start emitter ws).trans (serves_emitTops templates ws)
  rcases serves.keys key (List.mem_of_find?_eq_some found) with earlier | ⟨name, category, asked, rfl⟩
  · cases earlier
  · rw [holdsHalf_nameKey] at half
    have plain : ∀ name ∈ templateNames, holdsHalf name = false := by decide
    refine ⟨name, category, asked.resolve_right fun own => ?_, half, rfl⟩
    rw [plain name own] at half
    cases half

/-- If no name with a half is asked for, no declared variable has one in its name. -/
theorem holdsHalf_of_halvedKey?_eq_none (templates : emitter.templates = knownTemplates)
    (none : emitter.halvedKey? ws = none) {known : Variable} (declared : known ∈ ws.declared) :
    holdsHalf known.name = false := by
  have asked : nameKey known.name .variable ∈ (emitter.start ws).names.assigned.keys := by
    rw [names_start]
    exact Registry.mem_keys_getNames (List.mem_map_of_mem declared) .variable
  have plain := List.find?_eq_none.mp none _ ((serves_emitTops templates ws).kept asked)
  simpa using plain

/-- What is loaded has no source only if a name with a half breaks it off. -/
theorem error_of_sourceAmong {strict halved : Bool} {oneBased : Option Bool} {data : Json}
    {error : EmissionError} (loaded : loadWorkspace strict oneBased data = .ok ws)
    (proper : data.All Json.IsProper) (short : data.All Json.IsShort)
    (failed : (Emitter.sourceAmong halved { strict } ws).1 = .error error) :
    halved ∧ ∃ key, error = .unencodable key := by
  obtain ⟨text, emitted⟩ := exists_source_of_loadWorkspace loaded proper short
  unfold sourceAmong at failed
  split at failed
  · exact ⟨rfl, _, (Except.error.inj failed).symm⟩
  · rw [emitted] at failed
    cases failed

/-- What is loaded has a source, if all whole numbers in it have fewer than 4300 digits, unless the name of a
variable, a parameter or a procedure has a lone half of a surrogate pair and is asked for. There is a source
only if the names of all declared variables are without halves. -/
theorem exists_source {strict : Bool} {oneBased : Option Bool} {data : Json} (halved : Bool)
    (loaded : loadWorkspace strict oneBased data = .ok ws) (proper : data.All Json.IsProper)
    (short : data.All Json.IsShort) :
    (∃ text, (Emitter.sourceAmong halved { strict } ws).1 = .ok text ∧
      (halved → ∀ known ∈ ws.declared, holdsHalf known.name = false)) ∨
    ∃ name category, (Emitter.sourceAmong halved { strict } ws).1 =
      .error (.unencodable (nameKey name category)) ∧
      halved ∧ ws.Asks name ∧ holdsHalf name := by
  obtain ⟨text, emitted⟩ := exists_source_of_loadWorkspace loaded proper short
  cases halved with
  | false => exact .inl ⟨text, emitted, nofun⟩
  | true =>
    cases found : ({ strict } : Emitter).halvedKey? ws with
    | none =>
      rw [sourceAmong_of_halvedKey?_eq_none true found]
      exact .inl ⟨text, emitted, fun _ _ declared => holdsHalf_of_halvedKey?_eq_none rfl found declared⟩
    | some key =>
      obtain ⟨name, category, asks, half, rfl⟩ := asks_of_halvedKey? rfl found
      rw [sourceAmong_of_halvedKey? found]
      exact .inr ⟨name, category, rfl, rfl, asks, half⟩

/-- A number in a text, next to a block of unknown type in a place that is no number. All characters are their
own. -/
theorem exists_source_unknown :
    let number := Json.object [("type", .text "math_number"), ("fields", .object [("NUM", .text "7")])]
    let unknown := Json.object [("type", .text "motor_start"), ("y", .number (.float .nan)),
      ("inputs", .object [("SPEED", number)])]
    let data := Json.object [("name", .text "motors"), ("blocks", .list [unknown, number])]
    ∃ ws, loadWorkspace false none data = .ok ws ∧ data.All Json.IsProper ∧ data.All Json.IsShort ∧
      ∃ text, (Emitter.sourceAmong false { strict := false } ws).1 = .ok text := by
  intro number unknown data
  have loads : (loadWorkspace false none data).toOption.isSome := by decide +kernel
  have noNumbers : ∀ text ∈ ["motors", "math_number", "motor_start"],
      (numberOf (.text text)).toOption.isNone := by
    decide +kernel
  have words := fun text member => Json.isShort_text (noNumbers text member)
  have seven : (Json.text "7").IsShort := by
    intro whole isNumber
    have found : numberOf (.text "7") = .ok (.int 7) := by decide +kernel
    rw [found] at isNumber
    cases isNumber
    exact Nat.lt_of_lt_of_le (show (7 : Int).natAbs < tenTo 1 by decide) (tenTo_mono (by decide))
  have proper : data.All Json.IsProper := by
    simp [data, unknown, number, Json.All, Json.AllMembers, Json.AllItems, Json.IsProper, Table.keys,
      Binary64.IsBounded]
  have short : data.All Json.IsShort := by
    simp [data, unknown, number, Json.All, Json.AllMembers, Json.AllItems, words, seven]
    simp [Json.IsShort]
  cases loaded : loadWorkspace false none data with
  | error error =>
    rw [loaded] at loads
    cases loads
  | ok ws =>
    rcases exists_source false loaded proper short with ⟨text, emitted, _⟩ | ⟨_, _, _, halved, _⟩
    · exact ⟨ws, rfl, proper, short, text, emitted⟩
    · cases halved

/-- A text whose only variable is called by a lone half: it is read and loaded, and has no source. -/
theorem not_exists_source_lone :
    let block := "\x7b\"type\":\"variables_set\",\"fields\":\x7b\"VAR\":\"\\ud800\"\x7d\x7d"
    let shown := "\x7b\"name\":\"w\",\"blocks\":[" ++ block ++ "]\x7d"
    let half := String.singleton (standIn 0xd800)
    ∃ reading ws, Reading.ofText (some digitLimit) shown.toList = .ok reading ∧ reading.halved ∧
      reading.data.All Json.IsProper ∧ reading.data.All Json.IsShort ∧
      loadWorkspace false none reading.data = .ok ws ∧
      (Emitter.sourceAmong reading.halved { strict := false } ws).1 =
        .error (.unencodable (nameKey half .variable)) := by
  intro block shown half
  let data := Json.object [("name", .text "w"), ("blocks", .list [.object [("type", .text "variables_set"),
    ("fields", .object [("VAR", .text half)])]])]
  have reads : (Reading.ofText (some digitLimit) shown.toList).toOption.any fun reading =>
      reading.data.isSame data && reading.halved := by decide +kernel
  obtain ⟨⟨found, halved⟩, read, same⟩ := exists_ok_of_any reads
  obtain ⟨same, halves⟩ := Bool.and_eq_true_iff.mp same
  obtain rfl : found = data := Json.eq_of_isSame same
  obtain rfl : halved = true := halves
  have noNumbers : ∀ text ∈ ["w", "variables_set", half], (numberOf (.text text)).toOption.isNone := by
    decide +kernel
  have words := fun text member => Json.isShort_text (noNumbers text member)
  have proper : data.All Json.IsProper := by
    simp [data, Json.All, Json.AllMembers, Json.AllItems, Json.IsProper, Table.keys]
  have short : data.All Json.IsShort := by
    simp [data, Json.All, Json.AllMembers, Json.AllItems, words]
    simp [Json.IsShort]
  have loads : (loadWorkspace false none data).toOption.any fun ws =>
      ({ strict := false } : Emitter).halvedKey? ws = some (nameKey half .variable) := by decide +kernel
  obtain ⟨ws, loaded, asked⟩ := exists_ok_of_any loads
  have asked : ({ strict := false } : Emitter).halvedKey? ws = some (nameKey half .variable) := by
    simpa using asked
  refine ⟨_, ws, read, rfl, proper, short, loaded, ?_⟩
  rw [sourceAmong_of_halvedKey? asked]

end Emitter

end BlockCompiler

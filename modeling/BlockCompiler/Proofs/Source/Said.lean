import BlockCompiler.Proofs.Source.Helper
import BlockCompiler.Proofs.Source.Whole

/-!
What the parts of a source say: definitions and code nest, each definition of a procedure has one head, and
the name of the helper function is declared in its own definition only.
-/

namespace BlockCompiler

/-- The key of the definition of a procedure, read back. -/
def procedureOf? (key : String) : Option String :=
  if key.toList.head? = some '%' then some (String.ofList key.toList.tail) else none

/-- Given a pass, some lines nest and import nothing, they define some procedures, and they declare the name
of the helper function so often. -/
structure Pass.States (pass : Pass) (a b : Nat) (procedures : List String) (times : Nat)
    (lines : List (List Char)) : Prop where
  nests : openAfter (List.replicate a '\x7b') lines = some (List.replicate b '\x7b')
  oneLine : ∀ line ∈ lines, '\n' ∉ line
  solid : ∀ line ∈ lines, isSolid line
  plain : ∀ line ∈ lines, (line.dropWhile (· = ' ')).head? ≠ some '#'
  procedures : lines.filterMap (wordBehind? procedureLead) = procedures
  declared : ∀ name, pass.randomInt? = some name → (lines.filterMap (wordBehind? "int ")).count name = times
  counts : ∀ name, pass.randomInt? = some name → ∀ line ∈ lines, wordBehind? "for (int " line ≠ some name

/-- The lines of a text that are not blank say this. -/
def Pass.Reports (pass : Pass) (procedures : List String) (times : Nat) (text : String) : Prop :=
  ∃ lines, pass.States 0 0 procedures times lines ∧ firmLines text.toList = firmOf lines

section States

variable {pass : Pass} {a b c m n : Nat} {procedures more : List String} {lines others : List (List Char)}
  {line : List Char} {heads : List BlockHead} {text code name : String}

theorem openAfter_of_nests (nests : Nests a b lines) :
    openAfter (List.replicate a '\x7b') lines = some (List.replicate b '\x7b') := by
  simpa using nests 0

theorem states_nothing : pass.States a a [] 0 [] := ⟨rfl, by simp, by simp, by simp, rfl, by simp, by simp⟩

theorem Pass.States.append (first : pass.States a b procedures m lines)
    (second : pass.States b c more n others) :
    pass.States a c (procedures ++ more) (m + n) (lines ++ others) where
  nests := by rw [openAfter_append first.nests, second.nests]
  oneLine := List.forall_mem_append.mpr ⟨first.oneLine, second.oneLine⟩
  solid := List.forall_mem_append.mpr ⟨first.solid, second.solid⟩
  plain := List.forall_mem_append.mpr ⟨first.plain, second.plain⟩
  procedures := by rw [List.filterMap_append, first.procedures, second.procedures]
  declared := fun name defined => by
    rw [List.filterMap_append, List.count_append, first.declared name defined, second.declared name defined]
  counts := fun name defined =>
    List.forall_mem_append.mpr ⟨first.counts name defined, second.counts name defined⟩

/-- Trimming changes nothing about the words behind leads. -/
theorem Pass.States.filterMap_firmOf (states : pass.States a b procedures n lines) (lead : String) :
    (firmOf lines).filterMap (wordBehind? lead) = lines.filterMap (wordBehind? lead) := by
  have solid : ∀ line ∈ lines.map trimEnd, isSolid line := by
    intro line member
    obtain ⟨whole, among, rfl⟩ := List.mem_map.mp member
    rw [isSolid_trimEnd, states.solid whole among]
  rw [firmOf, List.filter_eq_self.mpr solid, List.filterMap_map]
  congr 1
  funext line
  exact wordBehind?_trimEnd lead line

/-- Steady lines define nothing. -/
theorem states_steady (nests : Nests a b lines) (steady : ∀ line ∈ lines, pass.IsSteady line) :
    pass.States a b [] 0 lines where
  nests := openAfter_of_nests nests
  oneLine := fun line member => (steady line member).oneLine
  solid := fun line member => (steady line member).solid
  plain := fun line member => (steady line member).plain
  procedures := List.filterMap_eq_nil_iff.mpr fun line member => (steady line member).defines
  declared := fun name defined => List.count_eq_zero.mpr fun among => by
    obtain ⟨line, member, found⟩ := List.mem_filterMap.mp among
    exact ((steady line member).counts "int " (by simp [countLeads]) name found).2 defined
  counts := fun name defined line member found =>
    ((steady line member).counts "for (int " (by simp [countLeads]) name found).2 defined

/-- The lines of comments are steady. -/
theorem isSteady_comment (comment : "//".toList <+: line) (oneLine : '\n' ∉ line) : pass.IsSteady line := by
  obtain ⟨words, rfl⟩ := comment
  exact isSteady_of_head '/' oneLine rfl (by decide) (by decide)

/-- A line of which the first character is known. -/
theorem states_line {first : Char} (headed : line.head? = some first) (solid : isBlank first = false)
    (code : first ∉ ['/', '#', 'f'])
    (closing : a = if first = '\x7d' then 1 else 0) (shifts : Shifts a b line) (oneLine : '\n' ∉ line)
    (declared : ∀ name, pass.randomInt? = some name →
    ([line].filterMap (wordBehind? "int ")).count name = n) :
    pass.States a b (wordBehind? procedureLead line).toList n [line] where
  nests :=
    openAfter_of_nests
      (nests_line first headed solid (isCommentLine_of_head headed solid fun same => code (by simp [same]))
      closing shifts)
  oneLine := List.forall_mem_singleton.mpr oneLine
  solid := List.forall_mem_singleton.mpr (isSolid_spaces 0 headed solid)
  plain := List.forall_mem_singleton.mpr (by
    rw [dropWhile_of_solid headed solid, headed]
    rintro ⟨⟩
    exact code (by simp))
  procedures := by cases found : wordBehind? procedureLead line <;> simp [found]
  declared := declared
  counts := fun name _ => List.forall_mem_singleton.mpr (by
    rw [wordBehind?_of_head 'f' headed solid rfl (fun same => code (by simp [← same]))]
    rintro ⟨⟩)

/-- The declaration of variables. -/
theorem states_declaration {names : List String} (words : ∀ name ∈ names, IsName name.toList) :
    pass.States 0 0 [] 0 [("var " ++ joinTexts ", " names ++ ";").toList] := by
  have whole : Whole ("var " ++ joinTexts ", " names ++ ";") :=
    ((whole_of_plain (by decide)).append
      (whole_joinTexts (whole_of_plain (by decide)) fun name among => whole_word (words name among))).append
      (whole_of_plain (by decide))
  have headed : ("var " ++ joinTexts ", " names ++ ";").toList.head? = some 'v' := by simp
  have none : wordBehind? procedureLead ("var " ++ joinTexts ", " names ++ ";").toList = none := by
    apply wordBehind?_of_not_led
    rw [dropWhile_of_solid headed (by decide)]
    simp [procedureLead]
  have stated := @states_line pass 0 0 0 _ _ headed (by decide) (by decide) rfl whole.balanced whole.oneLine
    fun name _ => by
    rw [List.filterMap_cons_none (wordBehind?_of_head 'i' headed (by decide) rfl (by decide))]
    rfl
  rwa [none] at stated

/-- The definition of a procedure. -/
theorem states_procedure {head : BlockHead} {rows : Rows BlockHead RowHead}
    {comments body : List (List Char)} {names : List String} {identifier : String}
    (isName : IsName identifier.toList) (definition : pass.IsDefinition head rows comments names body) :
    pass.States 0 0 [identifier] 0 (procedureLines identifier comments names body) := by
  have above : pass.States 0 0 [] 0 comments :=
    states_steady (nests_comments fun line member => (definition.comments line member).1)
      fun line member => isSteady_comment (definition.comments line member).1
        (definition.comments line member).2
  have inside : pass.States 1 1 [] 0 body := states_steady definition.nests definition.steady
  have closing : pass.States 1 0 [] 0 [['\x7d']] := by
    have steady : pass.IsSteady ['\x7d'] := isSteady_of_head '\x7d' (by decide) rfl (by decide) (by decide)
    exact states_steady (nests_line '\x7d' rfl (by decide) (by decide) rfl shifts_closing)
      (List.forall_mem_singleton.mpr steady)
  have opening : pass.States 0 1 [identifier] 0 [(procedureHeader identifier names ++ " \x7b").toList] := by
    have whole : Whole (procedureHeader identifier names ++ " ") :=
      (whole_procedureHeader isName definition.words).append (whole_of_plain (by decide))
    have shape : (procedureHeader identifier names ++ " \x7b").toList =
        (procedureHeader identifier names ++ " ").toList ++ ['\x7b'] := by
      simp
    have word : (procedureHeader identifier names ++ " \x7b").toList =
        procedureLead.toList ++
          (identifier.toList ++ ("(" ++ joinTexts ", " names ++ ")" ++ " \x7b").toList) := by
      simp [procedureHeader, procedureLead]
    have headed : (procedureHeader identifier names ++ " \x7b").toList.head? = some 'v' := by
      simp [procedureHeader]
    have stated := @states_line pass 0 1 0 _ _ headed (by decide) (by decide) rfl
      (by rw [shape]; exact Shifts.append whole.balanced shifts_opening)
      (by rw [shape]; exact List.not_mem_append whole.oneLine (by decide)) fun name _ => by
        rw [List.filterMap_cons_none (wordBehind?_of_head 'i' headed (by decide) rfl (by decide))]
        rfl
    have found : wordBehind? procedureLead (procedureHeader identifier names ++ " \x7b").toList =
        some identifier := by
      rw [word]
      exact wordBehind?_word ⟨'v', rfl, by decide⟩ isName (by simp; decide)
    rwa [found] at stated
  exact above.append (opening.append (inside.append closing))

/-- The definition of the helper function. -/
theorem states_helper {name : String} (defined : pass.randomInt? = some name) (isName : IsName name.toList)
    (leads : randomIntName.toList <+: name.toList) : pass.States 0 0 [] 1 (helperLines name) := by
  have whole : Whole ("int " ++ name ++ ("(" ++ "int a, int b" ++ ")") ++ " ") :=
    (((whole_of_plain (by decide)).append (whole_word isName)).append
      ((whole_of_plain (by decide)).enclosed "(" ")" (by simp))).append
      (whole_of_plain (by decide))
  have shape : "int ".toList ++ (name.toList ++ "(int a, int b) \x7b".toList) =
      ("int " ++ name ++ ("(" ++ "int a, int b" ++ ")") ++ " ").toList ++ ['\x7b'] := by
    simp
  have headed : ("int ".toList ++ (name.toList ++ "(int a, int b) \x7b".toList)).head? = some 'i' := rfl
  have declared : wordBehind? "int " ("int ".toList ++ (name.toList ++ "(int a, int b) \x7b".toList)) =
      some name :=
    wordBehind?_word ⟨'i', rfl, by decide⟩ isName (by simp; decide)
  have opening := @states_line pass 0 1 1 _ _ headed (by decide) (by decide) rfl
    (by rw [shape]; exact Shifts.append whole.balanced shifts_opening)
    (by rw [shape]; exact List.not_mem_append whole.oneLine (by decide)) fun other found => by
      cases defined.symm.trans found
      rw [List.filterMap_cons_some declared]
      simp
  rw [wordBehind?_of_head 'v' headed (by decide) rfl (by decide)] at opening
  obtain ⟨nests, facts⟩ := helperBody_facts
  have inside : pass.States 1 0 [] 0 (helperBody.map String.toList) := by
    refine ⟨nests, fun line member => (facts line member).1, fun line member => (facts line member).2.1,
      fun line member => (facts line member).2.2.1, List.filterMap_eq_nil_iff.mpr fun line member =>
      (facts line member).2.2.2.1,
      fun other found => List.count_eq_zero.mpr fun among => ?_, fun other _ line member found => ?_⟩
    · cases defined.symm.trans found
      obtain ⟨line, member, word⟩ := List.mem_filterMap.mp among
      have own := (facts line member).2.2.2.2.2
      rw [word, Option.all_some, decide_eq_true_eq] at own
      rw [own] at leads
      exact absurd leads (by decide)
    · rw [(facts line member).2.2.2.2.1] at found
      cases found
  exact opening.append inside

end States

section Reports

variable {pass : Pass} {procedures : List String} {times : Nat} {lines : List (List Char)}
  {heads : List BlockHead} {text : String}

theorem Pass.States.reports (states : pass.States 0 0 procedures times lines)
    (shape : text.toList = unlines lines) :
    pass.Reports procedures times text := ⟨lines, states, by rw [shape, firmLines_unlines states.oneLine]⟩

theorem Pass.States.reports_closed (states : pass.States 0 0 procedures times lines)
    (shape : (text ++ "\n").toList = unlines lines) :
    pass.Reports procedures times text :=
  ⟨lines, states, firmLines_of_closed states.oneLine (by rwa [String.toList_append] at shape)⟩

/-- Lines of blocks define nothing. -/
theorem Lays.reports (lays : Lays 0 0 heads pass text) : pass.Reports [] 0 text := by
  obtain ⟨lines, shape, nests, steady, _⟩ := lays
  exact (states_steady nests steady).reports shape

theorem Pass.Defines.reports {head : BlockHead} {rows : Rows BlockHead RowHead} {identifier : String}
    (defines : pass.Defines head rows identifier text) : pass.Reports [identifier] 0 text := by
  obtain ⟨isName, _, comments, names, body, definition, shape⟩ := defines
  exact (states_procedure isName definition).reports_closed shape

theorem reports_empty : pass.Reports [] 0 "" := states_nothing.reports rfl

/-- The texts of some items one after the other say what all of them say. -/
theorem exists_states_flatMap {α : Type} {items : List α} (text : α → String) (procedures : α → List String)
    (times : α → Nat) (each : ∀ item ∈ items, pass.Reports (procedures item) (times item) (text item)) :
    ∃ lines, pass.States 0 0 (items.flatMap procedures) (items.map times).sum lines ∧
      items.flatMap (fun item => firmLines (text item).toList) = firmOf lines := by
  induction items with
  | nil => exact ⟨[], states_nothing, rfl⟩
  | cons item items ih =>
    obtain ⟨⟨lines, states, same⟩, others⟩ := List.forall_mem_cons.mp each
    obtain ⟨linesOther, statesOther, sameOther⟩ := ih others
    refine ⟨lines ++ linesOther, states.append statesOther, ?_⟩
    rw [List.flatMap_cons, same, sameOther, firmOf_append]

@[simp] theorem procedureOf?_procedureKey (name : String) : procedureOf? (procedureKey name) = some name := by
  simp [procedureOf?, procedureKey]

theorem procedureKey_of_procedureOf? {key name : String} (found : procedureOf? key = some name) :
    procedureKey name = key := by
  unfold procedureOf? at found
  split_ifs at found with marked
  obtain ⟨rest, shape⟩ := List.head?_eq_some_iff.mp marked
  rw [shape] at found
  cases found
  refine String.toList_inj.mp ?_
  simp [procedureKey, shape]

end Reports

/-- The line that includes a header. -/
def includeLine (name : String) : String := "#include <" ++ name ++ ">"

section Entries

variable {text : String}

/-- A text imports nothing if its first letters are not those of what does. -/
theorem isImport_of_not_led (other : ¬ "import".toList <+: (text ++ "\n").toList)
    (others : ¬ "#include".toList <+: (text ++ "\n").toList) :
    isImport text = false := by
  have longer : ∀ {lead : String}, startsWithWord lead text.toList →
      lead.toList <+: (text ++ "\n").toList := by
    intro lead starts
    unfold startsWithWord at starts
    rw [Bool.and_eq_true, List.isPrefixOf_iff_prefix] at starts
    rw [String.toList_append]
    exact starts.1.trans (List.prefix_append ..)
  by_contra imports
  rw [Bool.not_eq_false, isImport, Bool.or_eq_true] at imports
  exact imports.elim (fun starts => other (longer starts)) fun starts => others (longer starts)

theorem isImport_of_head (first : Char) (headed : (text ++ "\n").toList.head? = some first)
    (other : first ∉ ['i', '#']) :
    isImport text = false := by
  have leads : ∀ lead : String, (∃ c ∈ lead.toList.head?, c ∈ ['i', '#']) →
      ¬ lead.toList <+: (text ++ "\n").toList := by
    rintro lead ⟨c, led, among⟩ ⟨later, shape⟩
    rw [← shape, List.head?_append, led] at headed
    cases headed
    exact other among
  exact isImport_of_not_led (leads _ ⟨'i', rfl, by decide⟩) (leads _ ⟨'#', rfl, by decide⟩)

/-- The first letter of the definition of a procedure is that of its head or of a comment. -/
theorem Pass.Defines.isImport {pass : Pass} {head : BlockHead} {rows : Rows BlockHead RowHead}
    {identifier : String} (defines : pass.Defines head rows identifier text) : isImport text = false := by
  obtain ⟨_, _, comments, names, body, definition, shape⟩ := defines
  cases comments with
  | nil => exact isImport_of_head 'v' (by simp [shape, procedureLines, unlines, procedureHeader]) (by decide)
  | cons line comments =>
    obtain ⟨⟨words, rfl⟩, _⟩ := definition.comments _ (List.mem_cons_self ..)
    exact isImport_of_head '/' (by simp [shape, procedureLines, unlines]) (by decide)

theorem isImport_helper (name : String) :
    isImport (Emission.sourceUnder name Template.randomIntSource) = false := by
  refine isImport_of_not_led ?_ ?_ <;> rw [Emission.sourceUnder_randomInt] <;> simp [helperLines, unlines]

theorem isImport_includeLine (name : String) : isImport (includeLine name) := by
  have length : "#include".length = 8 := by decide
  simp [isImport, includeLine, startsWithWord, length]
  decide

theorem procedureOf?_of_head {key : String} (other : key.toList.head? ≠ some '%') :
    procedureOf? key = none := by
  rw [procedureOf?, if_neg other]

end Entries

section Whole

variable {s last : Pass} {tops : List (Stack BlockHead RowHead)} {codes : List String}

/-- A definition either imports a header, or states what its key tells. -/
def Pass.Explains (pass : Pass) (entry : String × String) : Prop :=
  (∃ name ∈ knownHeaders, entry = ("include_" ++ name, includeLine name)) ∧ isImport entry.2 ∨
    isImport entry.2 = false ∧ (∀ name, entry.1 ≠ "include_" ++ name) ∧
      pass.Reports (procedureOf? entry.1).toList (if entry.1 = randomIntName then 1 else 0) entry.2

theorem Assembled.explains (assembled : Assembled s last tops codes)
    (bare : ∀ name, s.definitions.get? (procedureKey name) = none) {entry : String × String}
    (member : entry ∈ last.definitions) :
    last.Explains entry := by
  have apart : ∀ key : String, key.toList.head? ≠ some 'i' → ∀ name, key ≠ "include_" ++ name := by
    rintro key other name rfl
    exact other (by simp)
  cases assembled.settled.entries entry member with
  | @declaration names words =>
    refine .inr ⟨isImport_of_head 'v' (by simp) (by decide), apart "variables" (by decide), ?_⟩
    dsimp only
    rw [procedureOf?_of_head (by decide), if_neg (by decide)]
    refine (states_declaration words).reports_closed ?_
    rw [String.toList_append]
    exact (List.append_nil _).symm
  | @header name among => exact .inl ⟨⟨name, among, rfl⟩, isImport_includeLine name⟩
  | @helper name defined =>
    obtain ⟨_, leads⟩ := assembled.settled.apart name defined
    obtain ⟨other, found, isName⟩ :=
      assembled.settled.sound.helper (Table.has_iff_mem_keys.mpr (List.mem_map_of_mem (f := (·.1)) member))
    cases defined.symm.trans found
    refine .inr ⟨isImport_helper name, apart randomIntName (by decide), ?_⟩
    dsimp only
    rw [procedureOf?_of_head (by decide), if_pos rfl]
    exact (states_helper defined isName leads).reports_closed (Emission.sourceUnder_randomInt name)
  | @procedure name text =>
    rcases assembled.procedures name text
      (Table.get?_of_mem assembled.settled.distinct member) with earlier | ⟨head, rows, _, _, defines⟩
    · rw [bare name] at earlier
      cases earlier
    · refine .inr ⟨defines.isImport, apart _ (by simp [procedureKey]), ?_⟩
      rw [procedureOf?_procedureKey, if_neg (Emission.procedureKey_ne (by decide))]
      exact defines.reports

/-- The lines of a source that are not blank include some headers and then state what the pass has defined. -/
structure Pass.Sourced (last : Pass) (source : String) (headers procedures : List String)
    (lines : List (List Char)) : Prop where
  whole : firmLines source.toList = (headers.map fun name => (includeLine name).toList) ++ firmOf lines
  states : last.States 0 0 procedures (if last.definitions.has randomIntName then 1 else 0) lines
  headersOnce : headers.Nodup
  proceduresOnce : procedures.Nodup
  included : ∀ name, name ∈ headers ↔ name ∈ knownHeaders ∧ last.definitions.has ("include_" ++ name)
  defined : ∀ name, name ∈ procedures ↔ last.definitions.has (procedureKey name)

theorem sum_marks (keys : List String) (key : String) :
    (keys.map fun other => if other = key then 1 else 0).sum = keys.count key := by
  induction keys with
  | nil => rfl
  | cons first keys ih =>
    rw [List.map_cons, List.sum_cons, ih, List.count_cons, Nat.add_comm]
    simp

theorem firmLines_includeLine {name : String} (among : name ∈ knownHeaders) :
    firmLines (includeLine name).toList = [(includeLine name).toList] := by
  have each : ∀ name ∈ knownHeaders, firmLines (includeLine name).toList = [(includeLine name).toList] := by
    decide +kernel
  exact each name among

/-- Definitions that are all those of headers. -/
theorem exists_headers {entries : Table String}
    (each : ∀ entry ∈ entries, ∃ name ∈ knownHeaders, entry = ("include_" ++ name, includeLine name)) :
    ∃ headers : List String, (∀ name ∈ headers, name ∈ knownHeaders) ∧ entries = headers.map fun name =>
      ("include_" ++ name, includeLine name) := by
  induction entries with
  | nil => exact ⟨[], by simp, rfl⟩
  | cons entry entries ih =>
    obtain ⟨⟨name, among, rfl⟩, others⟩ := List.forall_mem_cons.mp each
    obtain ⟨headers, known, rfl⟩ := ih others
    exact ⟨name :: headers, List.forall_mem_cons.mpr ⟨among, known⟩, rfl⟩

theorem Assembled.reports_codes (assembled : Assembled s last tops codes) :
    ∀ code ∈ codes, last.Reports [] 0 code := by
  have left := assembled.left
  clear assembled
  induction left with
  | nil => simp
  | cons first _ ih =>
    refine List.forall_mem_cons.mpr ⟨?_, ih⟩
    unfold Stack.IsLeft at first
    split at first
    · exact first.reports
    · rw [first]
      exact reports_empty

/-- The definitions that import something are those of headers. -/
theorem exists_imports {pass : Pass} {entries : Table String}
    (each : ∀ entry ∈ entries, pass.Explains entry) (distinct : entries.keys.Nodup) :
    ∃ headers : List String, headers.Nodup ∧
      (∀ name, name ∈ headers ↔ name ∈ knownHeaders ∧ entries.has ("include_" ++ name)) ∧
      (entries.filter (isImport ·.2)).flatMap (fun entry => firmLines entry.2.toList) =
      headers.map fun name => (includeLine name).toList := by
  have isHeader : ∀ entry ∈ entries.filter (isImport ·.2), ∃ name ∈ knownHeaders,
      entry = ("include_" ++ name, includeLine name) := by
    intro entry member
    obtain ⟨among, imports⟩ := List.mem_filter.mp member
    rcases each entry among with ⟨isHeader, _⟩ | ⟨other, _⟩
    · exact isHeader
    · rw [other] at imports
      cases imports
  obtain ⟨headers, known, imports⟩ := exists_headers isHeader
  refine ⟨headers, ?_, fun name => ⟨fun among => ⟨known name among, ?_⟩, fun ⟨_, has⟩ => ?_⟩, ?_⟩
  · have keys : ((entries.filter (isImport ·.2)).map (·.1)).Nodup :=
      distinct.sublist (List.filter_sublist.map _)
    rw [imports, List.map_map] at keys
    exact keys.of_map
  · have member : ("include_" ++ name, includeLine name) ∈ entries.filter (isImport ·.2) :=
      imports ▸ List.mem_map_of_mem (f := fun name => ("include_" ++ name, includeLine name)) among
    exact Table.has_iff_mem_keys.mpr (List.mem_map_of_mem (f := (·.1)) (List.mem_filter.mp member).1)
  · obtain ⟨entry, among, key⟩ := List.mem_map.mp (Table.has_iff_mem_keys.mp has)
    rcases each entry among with ⟨_, isHeader⟩ | ⟨_, other, _⟩
    · have member : entry ∈ entries.filter (isImport ·.2) := List.mem_filter.mpr ⟨among, isHeader⟩
      rw [imports] at member
      obtain ⟨header, inside, rfl⟩ := List.mem_map.mp member
      rwa [← (String.append_right_inj _).mp key]
    · exact absurd key (other name)
  · rw [imports, List.flatMap_map]
    clear imports
    induction headers with
    | nil => rfl
    | cons name headers ih =>
      obtain ⟨here, others⟩ := List.forall_mem_cons.mp known
      rw [List.flatMap_cons, List.map_cons, ih others, firmLines_includeLine here, List.singleton_append]

/-- The other definitions state which procedures are defined, and once the name of the helper function. -/
theorem exists_others {pass : Pass} {entries : Table String} (each : ∀ entry ∈ entries, pass.Explains entry)
    (distinct : entries.keys.Nodup) :
    ∃ procedures lines, procedures.Nodup ∧ (∀ name, name ∈ procedures ↔ entries.has (procedureKey name)) ∧
      pass.States 0 0 procedures (if entries.has randomIntName then 1 else 0) lines ∧
        (entries.filter (!isImport ·.2)).flatMap (fun entry => firmLines entry.2.toList) = firmOf lines := by
  have reports : ∀ entry ∈ entries.filter (!isImport ·.2),
      pass.Reports (procedureOf? entry.1).toList (if entry.1 = randomIntName then 1 else 0) entry.2 := by
    intro entry member
    obtain ⟨among, other⟩ := List.mem_filter.mp member
    rcases each entry among with ⟨_, imports⟩ | ⟨_, _, reports⟩
    · rw [imports] at other
      cases other
    · exact reports
  obtain ⟨lines, states, same⟩ := exists_states_flatMap (fun entry : String × String => entry.2)
    (fun entry => (procedureOf? entry.1).toList)
      (fun entry => if entry.1 = randomIntName then 1 else 0) reports
  have keys : ((entries.filter (!isImport ·.2)).map (·.1)).Nodup :=
    distinct.sublist (List.filter_sublist.map _)
  have stays : ∀ key, key.toList.head? ≠ some 'i' →
      (key ∈ (entries.filter (!isImport ·.2)).map (·.1) ↔ entries.has key) := by
    intro key other
    rw [Table.has_iff_mem_keys, Table.keys]
    refine ⟨fun member => (List.filter_sublist.map _).subset member, fun member => ?_⟩
    obtain ⟨entry, among, rfl⟩ := List.mem_map.mp member
    rcases each entry among with ⟨⟨name, _, rfl⟩, _⟩ | ⟨imports, _⟩
    · exact absurd (by simp : ("include_" ++ name).toList.head? = some 'i') other
    · have stays : entry ∈ entries.filter (!isImport ·.2) := List.mem_filter.mpr ⟨among, by simp [imports]⟩
      exact List.mem_map_of_mem (f := (·.1)) stays
  generalize entries.filter (!isImport ·.2) = others at states same keys stays
  have procedures : others.flatMap (fun entry => (procedureOf? entry.1).toList) =
      (others.map (·.1)).filterMap procedureOf? := by
    rw [List.filterMap_eq_flatMap_toList, List.flatMap_map]
  have times : (others.map fun entry => if entry.1 = randomIntName then 1 else 0).sum =
      (others.map (·.1)).count randomIntName := by
    rw [← sum_marks, List.map_map]
    rfl
  rw [procedures, times, keys.count] at states
  simp only [stays randomIntName (by decide)] at states
  refine ⟨_, lines, ?_, fun name => ?_, states, same⟩
  · refine keys.filterMap fun key other name found foundOther => ?_
    rw [← procedureKey_of_procedureOf? found, procedureKey_of_procedureOf? foundOther]
  · rw [← stays (procedureKey name) (by simp [procedureKey]), List.mem_filterMap]
    refine ⟨?_, fun member => ⟨_, member, procedureOf?_procedureKey name⟩⟩
    rintro ⟨key, member, found⟩
    rwa [procedureKey_of_procedureOf? found]

/-- The source of stacks that have been emitted includes the headers of the pass, and then states what the
pass has defined. -/
theorem Assembled.exists_sourced (assembled : Assembled s last tops codes)
    (bare : ∀ name, s.definitions.get? (procedureKey name) = none) {source : String}
    (heads : last.Heads codes source) :
    ∃ headers procedures lines, last.Sourced source headers procedures lines := by
  have entries := fun entry (member : entry ∈ last.definitions) => assembled.explains bare member
  have distinct := assembled.settled.distinct
  obtain ⟨headers, once, included, imports⟩ := exists_imports entries distinct
  obtain ⟨procedures, lines, onceProcedures, defined, states, others⟩ := exists_others entries distinct
  obtain ⟨more, statesMore, sameMore⟩ := exists_states_flatMap _ _ _ assembled.reports_codes
  refine ⟨headers, procedures, lines ++ more, ?_, ?_, once, onceProcedures, included, defined⟩
  · rw [heads, List.filter_map, List.filter_map, List.flatMap_append, List.flatMap_append, List.flatMap_map,
      List.flatMap_map,
      sameMore, firmOf_append, ← others, ← imports, List.append_assoc]
    rfl
  · have nothing : codes.flatMap (fun _ => ([] : List String)) = [] := by simp
    have never : (codes.map fun _ => 0).sum = 0 := by simp
    have whole := states.append statesMore
    rwa [nothing, never, List.append_nil, Nat.add_zero] at whole

/-- A word behind a lead at the starts of the lines of a source stands there in its definitions and its code,
not where it includes headers. -/
theorem Pass.Sourced.filterMap_wordBehind? {source : String} {headers procedures : List String}
    {lines : List (List Char)} (sourced : last.Sourced source headers procedures lines) {lead : String}
    (led : Char) (leads : lead.toList.head? = some led) (other : led ≠ '#') :
    (firmLines source.toList).filterMap (wordBehind? lead) = lines.filterMap (wordBehind? lead) := by
  have above : (headers.map fun name => (includeLine name).toList).filterMap (wordBehind? lead) = [] := by
    refine List.filterMap_eq_nil_iff.mpr fun line member => ?_
    obtain ⟨name, _, rfl⟩ := List.mem_map.mp member
    exact wordBehind?_of_head led (by simp [includeLine] : _ = some '#') (by decide) leads other
  rw [sourced.whole, List.filterMap_append, above, List.nil_append, sourced.states.filterMap_firmOf]

/-- The lines of a definition or a code stand together in the source. -/
theorem infix_of_heads {source text : String} (heads : last.Heads codes source)
    (among : (∃ key, last.definitions.get? key = some text) ∨ text ∈ codes) :
    firmLines text.toList <:+: firmLines source.toList := by
  have member : text ∈ (last.definitions.map (·.2)).filter isImport ++ (last.definitions.map (·.2)).filter
      (!isImport ·) ++ codes := by
    rcases among with ⟨key, found⟩ | isCode
    · have inside : text ∈ last.definitions.map (·.2) :=
        List.mem_map_of_mem (f := (·.2)) (Table.mem_of_get? found)
      refine List.mem_append_left _ (List.mem_append.mpr ?_)
      cases imports : isImport text with
      | true => exact .inl (List.mem_filter.mpr ⟨inside, imports⟩)
      | false => exact .inr (List.mem_filter.mpr ⟨inside, by simp [imports]⟩)
    · exact List.mem_append_right _ isCode
  obtain ⟨front, back, split⟩ := List.append_of_mem member
  rw [heads, split, List.flatMap_append, List.flatMap_cons]
  exact ⟨_, _, List.append_assoc ..⟩

/-- Around the lines of one definition stand those of all others, and those of the codes. -/
theorem exists_around_of_heads {source key text : String} (heads : last.Heads codes source)
    (found : last.definitions.get? key = some text) : ∃ front back,
      firmLines source.toList = front ++ firmLines text.toList ++ back ∧
      ∀ other, (∃ another ≠ key, last.definitions.get? another = some other) ∨ other ∈ codes →
        firmLines other.toList ⊆ front ++ back := by
  let entries := last.definitions.filter (isImport ·.2) ++ last.definitions.filter (!isImport ·.2)
  have inside : ∀ {key text}, last.definitions.get? key = some text → (key, text) ∈ entries :=
    fun {key text} found => by
    have member := Table.mem_of_get? found
    cases imports : isImport text with
    | true => exact List.mem_append_left _ (List.mem_filter.mpr ⟨member, imports⟩)
    | false => exact List.mem_append_right _ (List.mem_filter.mpr ⟨member, by simp [imports]⟩)
  obtain ⟨above, below, split⟩ := List.append_of_mem (inside found)
  have whole : firmLines source.toList = (entries.map (·.2) ++ codes).flatMap fun text =>
      firmLines text.toList := by
    rw [heads, List.filter_map, List.filter_map, ← List.map_append]
    rfl
  refine ⟨(above.map (·.2)).flatMap fun text => firmLines text.toList,
    (below.map (·.2) ++ codes).flatMap fun text => firmLines text.toList, ?_, fun other among => ?_⟩
  · rw [whole, split]
    simp only [List.map_append, List.map_cons, List.flatMap_append, List.flatMap_cons, List.append_assoc]
  · rw [← List.flatMap_append]
    refine fun line member => List.mem_flatMap.mpr ⟨other, ?_, member⟩
    rcases among with ⟨another, differs, found⟩ | isCode
    · have elsewhere := inside found
      rw [split, List.mem_append, List.mem_cons] at elsewhere
      rcases elsewhere with front | same | back
      · exact List.mem_append_left _ (List.mem_map_of_mem (f := (·.2)) front)
      · exact absurd (congrArg Prod.fst same) differs
      · exact List.mem_append_right _ (List.mem_append_left _ (List.mem_map_of_mem (f := (·.2)) back))
    · exact List.mem_append_right _ (List.mem_append_right _ isCode)

/-- Each block of a stack that stands is shown in a line of a code or of the definition of a procedure, and
not in the head of one. -/
theorem Assembled.exists_place (assembled : Assembled s last tops codes) {stack : Stack BlockHead RowHead}
    (stands : stack ∈ standing tops) {head : BlockHead} (among : head ∈ stack.generated) :
    ∃ text, ((∃ name, last.definitions.get? (procedureKey name) = some text) ∨ text ∈ codes) ∧
      ∃ line ∈ firmLines text.toList, wordBehind? procedureLead line = none ∧ head.ShownIn last line := by
  cases defined : stack.defined? with
  | none =>
    obtain ⟨code, member, isLeft⟩ := exists_related assembled.left (mem_of_standing stands)
    rw [Stack.IsLeft, defined] at isLeft
    exact ⟨code, .inr member, isLeft.exists_line head among⟩
  | some name =>
    obtain ⟨definer, rows, identifier, text, rfl, defines, found⟩ :=
      assembled.stands stack stands (by rw [defined]; rfl)
    obtain ⟨enabled, named⟩ := Stack.enabled_of_defined? (by rw [defined]; rfl)
    exact ⟨text, .inl ⟨identifier, found⟩, defines.exists_line enabled named head among⟩

/-- Each block of a stack that stands is shown in a line of the source that is not the head of a
definition. -/
theorem Assembled.exists_line (assembled : Assembled s last tops codes) {source : String}
    (heads : last.Heads codes source) {stack : Stack BlockHead RowHead} (stands : stack ∈ standing tops)
    {head : BlockHead} (among : head ∈ stack.generated) :
    ∃ line ∈ firmLines source.toList, wordBehind? procedureLead line = none ∧ head.ShownIn last line := by
  obtain ⟨text, place, line, member, shown⟩ := assembled.exists_place stands among
  refine ⟨line, (infix_of_heads heads (place.imp_left ?_)).subset member, shown⟩
  rintro ⟨name, found⟩
  exact ⟨_, found⟩

end Whole

end BlockCompiler

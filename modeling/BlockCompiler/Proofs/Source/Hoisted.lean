import BlockCompiler.Proofs.Name.Led
import BlockCompiler.Proofs.Number.Digits
import BlockCompiler.Proofs.Step
import BlockCompiler.Proofs.Text.Collapsed

/-!
What is hoisted above a code: the definitions of the pass, those that import something first, each in the
order of the table. Of the texts and what separates them nothing is lost but line feeds. The pass is then as
it was before its first definition and its first name.
-/

namespace BlockCompiler

/-- A definition imports something: it starts with a word for this, and a blank comes behind the word. -/
def Imports (definition : String) : Prop :=
  ∃ word ∈ ["import", "#include"], ∃ c rest, definition.toList = word.toList ++ c :: rest ∧ isBlank c

/-- Definitions are divided into those that import something and the others, and all keep their order. -/
structure Divides (definitions imports others : List String) : Prop where
  imports_sublist : imports.Sublist definitions
  others_sublist : others.Sublist definitions
  imports_import : ∀ definition ∈ imports, Imports definition
  others_do_not : ∀ definition ∈ others, ¬ Imports definition
  whole : (imports ++ others).Perm definitions

theorem startsWithWord_iff {word : String} {text : List Char} :
    startsWithWord word text ↔ ∃ c rest, text = word.toList ++ c :: rest ∧ isBlank c := by
  rw [startsWithWord, Bool.and_eq_true, List.isPrefixOf_iff_prefix]
  constructor
  · rintro ⟨⟨rest, rfl⟩, blank⟩
    rw [← String.length_toList, List.drop_left, Option.any_eq_true] at blank
    obtain ⟨c, headed, blank⟩ := blank
    obtain ⟨later, rfl⟩ := List.head?_eq_some_iff.mp headed
    exact ⟨c, later, rfl, blank⟩
  · rintro ⟨c, rest, rfl, blank⟩
    refine ⟨List.prefix_append .., ?_⟩
    rw [← String.length_toList, List.drop_left]
    simpa using blank

theorem isImport_iff {definition : String} : isImport definition ↔ Imports definition := by
  rw [isImport, Bool.or_eq_true, startsWithWord_iff, startsWithWord_iff]
  simp [Imports]

theorem divides_partition (definitions : List String) :
    Divides definitions (definitions.partition isImport).1 (definitions.partition isImport).2 := by
  rw [List.partition_eq_filter_filter]
  refine ⟨List.filter_sublist, List.filter_sublist, fun definition member => ?_,
    fun definition member => ?_, ?_⟩
  · exact isImport_iff.mp (List.mem_filter.mp member).2
  · rw [← isImport_iff]
    simpa using (List.mem_filter.mp member).2
  · exact List.filter_append_perm ..

/-- Between texts that are joined by line feeds there is nothing else. -/
theorem filter_joinTexts {separator : String} {n : Nat} (feeds : separator.toList = List.replicate n '\n')
    (texts : List String) :
    (joinTexts separator texts).toList.filter (· ≠ '\n') = texts.flatMap fun text =>
      text.toList.filter (· ≠ '\n') := by
  induction texts with
  | nil => rfl
  | cons text rest ih =>
    cases rest with
    | nil => simp [joinTexts]
    | cons next rest =>
      rw [joinTexts, String.intercalate_cons_cons, ← joinTexts, String.toList_append, String.toList_append,
        feeds, List.filter_append,
        List.filter_append, filter_feeds, ih, List.append_nil]
      rfl

namespace Registry

/-- A word as registries keep it: something without blanks around it. -/
def IsTrimmed (word : String) : Prop := word ≠ "" ∧ trimEnds isBlank word.toList = word.toList

theorem isTrimmed_reserve {registry : Registry} (trimmed : ∀ word ∈ registry.reserved, IsTrimmed word)
    (words : List String) :
    ∀ word ∈ (registry.reserve words).reserved, IsTrimmed word := by
  intro word member
  rcases List.mem_append.mp member with known | new
  · exact trimmed word known
  · obtain ⟨among, filled⟩ := List.mem_filter.mp new
    obtain ⟨old, _, rfl⟩ := List.mem_map.mp among
    exact ⟨by simpa using filled, by rw [String.toList_ofList, trimEnds_idem]⟩

/-- A run of calls keeps words without blanks around them reserved. -/
theorem isTrimmed_after {registry : Registry} (trimmed : ∀ word ∈ registry.reserved, IsTrimmed word)
    (calls : List RegistryCall) :
    ∀ word ∈ (registry.after calls).reserved, IsTrimmed word := by
  induction calls generalizing registry with
  | nil => exact trimmed
  | cons call rest ih =>
    refine @ih (registry.call call).2 ?_
    cases call with
    | get name category =>
      cases assigned : registry.assigned.get? (nameKey name category) <;>
        simpa [Registry.call, getName, assigned, allocate] using trimmed
    | distinct name category => exact trimmed
    | reserve words => exact isTrimmed_reserve trimmed words

/-- What is left when a registry forgets its names is a new one for the words that are reserved. -/
theorem reset_eq_ofReserved {registry : Registry} (trimmed : ∀ word ∈ registry.reserved, IsTrimmed word) :
    registry.reset = ofReserved registry.reserved registry.variableLead := by
  have same : registry.reserved.map (fun word => String.ofList (trimEnds isBlank word.toList)) =
      registry.reserved := by
    rw [List.map_congr_left (g := id)
      fun word member => by rw [(trimmed word member).2, String.ofList_toList, id], List.map_id]
  have filled : registry.reserved.filter (· ≠ "") = registry.reserved :=
    List.filter_eq_self.mpr fun word member => by simpa using (trimmed word member).1
  rw [reset, ofReserved, reserve, same, filled]
  rfl

/-- After any calls a registry that forgets its names is a new one for the words that are reserved by then. -/
theorem reset_after (words : List String) (lead : String) (calls : List RegistryCall) :
    ((ofReserved words lead).after calls).reset =
    ofReserved ((ofReserved words lead).after calls).reserved lead := by
  have trimmed : ∀ word ∈ (ofReserved words lead).reserved, IsTrimmed word :=
    isTrimmed_reserve (by simp) words
  rw [reset_eq_ofReserved (isTrimmed_after trimmed calls), variableLead_after]
  rfl

end Registry

/-- What stands above a code are the definitions, those that import something first, with runs of line feeds
shortened. -/
theorem preamble_collapses (definitions : List String) :
    ∃ imports others, Divides definitions imports others ∧
      Collapses (joinTexts "\n" imports ++ "\n\n" ++ joinTexts "\n\n" others).toList
      (preamble definitions).toList ∧
      ¬ List.replicate 3 '\n' <:+: (preamble definitions).toList := by
  refine ⟨_, _, divides_partition definitions, ?_, ?_⟩ <;> rw [preamble, String.toList_ofList]
  · exact collapses _
  · exact fun three => not_infix_collapseBlankLines _ (three.trans (isPrefix_dropLineFeedsAtEnd _).isInfix)

namespace Emission

/-- What the end of a pass makes of any definitions, any names and any code. Above the code stand all
definitions, those that import something first and each in the order of the table, and of what separates them
and of them nothing is lost but line feeds: a run of more than two is shortened to two, and none are left at
the end. Afterwards the pass knows no definitions and no functions, and its names are those of a new registry
with the same reserved words. -/
theorem finish_hoists (pass : Pass) (words : List String) (lead : String) (calls : List RegistryCall)
    (code : String) :
    ∃ imports others, ∃ above : String, Divides (pass.definitions.map (·.2)) imports others ∧
      Collapses (joinTexts "\n" imports ++ "\n\n" ++ joinTexts "\n\n" others).toList above.toList ∧
      above.toList.getLast? ≠ some '\n' ∧ ¬ List.replicate 3 '\n' <:+: above.toList ∧
      above.toList.filter (· ≠ '\n') =
      (imports ++ others).flatMap (fun text => text.toList.filter (· ≠ '\n')) ∧
      Yields (finish code) { pass with names := (Registry.ofReserved words lead).after calls }
        (above ++ "\n\n\n" ++ code)
        { pass with
          definitions := [], functions := []
          names := Registry.ofReserved ((Registry.ofReserved words lead).after calls).reserved lead } := by
  obtain ⟨imports, others, divides, shortened, sparse⟩ := preamble_collapses (pass.definitions.map (·.2))
  refine ⟨imports, others, _, divides, shortened, shortened.getLast?_ne, sparse, ?_, ?_⟩
  · rw [shortened.filter_eq, String.toList_append, String.toList_append, List.filter_append,
      List.filter_append,
      filter_joinTexts (n := 1) rfl, filter_joinTexts (n := 2) rfl, show "\n\n".toList = List.replicate 2 '\n'
      from rfl,
      filter_feeds, List.append_nil, List.flatMap_append]
  · rw [finish, yields_get_bind, yields_set_bind, yields_pure, Pass.clear, Registry.reset_after]
    exact ⟨rfl, rfl⟩

end Emission

end BlockCompiler

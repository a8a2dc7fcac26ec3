import BlockCompiler.Proofs.Source.Procedures

/-!
What a source includes, and the helper function in it: headers come first and once each, and all random whole
numbers are asked of one function that nothing else shares its name with.
-/

namespace BlockCompiler

/-- The expression that a block of a kind makes on its own, with nothing in its sockets. -/
def BlockHead.own (head : BlockHead) (pass : Pass) (kind : BlockKind) : Expr :=
  head.tree pass (fun _ => none) kind

/-- A source defines the helper function once, and nothing else is declared under its name: no procedure, no
counter, and nothing that the pass has an identifier for. All random whole numbers are asked of it, each for
two numbers in a line outside its definition. -/
structure Pass.Shares (last : Pass) (tops : List (Stack BlockHead RowHead))
    (source helper : String) : Prop where
  isName : IsName helper.toList
  defined : ∃ front back, firmLines source.toList = front ++ firmOf (helperLines helper) ++ back ∧
    (∀ line ∈ front ++ back, ∀ lead ∈ procedureLead :: countLeads, wordBehind? lead line ≠ some helper) ∧
    ∀ stack ∈ standing tops, ∀ head ∈ stack.generated, BlockKind.ofName? head.type = some .randomInt →
      ∃ low high, ∃ line ∈ front ++ back, Within (callCode helper [low, high]).toList line
  apart : ∀ key, last.names.assigned.get? key ≠ some helper

section Math

variable {head : BlockHead} {pass : Pass}

end Math

section Included

variable {s last : Pass} {tops : List (Stack BlockHead RowHead)} {codes : List String}
  {source helper : String}

theorem not_mem_of_count_eq_one {α : Type} [DecidableEq α] {front middle back : List α} {a : α}
    (once : (front ++ middle ++ back).count a = 1) (here : a ∈ middle) : a ∉ front ++ back := by
  have filled := List.count_pos_iff.mpr here
  rw [List.count_append, List.count_append] at once
  rw [← List.count_eq_zero, List.count_append]
  omega

/-- What stands under the key of the helper function is its source. -/
theorem Assembled.get?_helper (assembled : Assembled s last tops codes)
    (defined : last.randomInt? = some helper) :
    last.definitions.get? randomIntName = some (Emission.sourceUnder helper Template.randomIntSource) := by
  have has : last.definitions.has randomIntName := by
    unfold Pass.randomInt? at defined
    split_ifs at defined with has
    exact has
  obtain ⟨text, found⟩ := Option.isSome_iff_exists.mp has
  have isEntry := assembled.settled.entries _ (Table.mem_of_get? found)
  generalize same : (randomIntName, text) = entry at isEntry
  have key : randomIntName = entry.1 := congrArg Prod.fst same
  have under : text = entry.2 := congrArg Prod.snd same
  cases isEntry with
  | declaration => exact absurd key (show randomIntName ≠ "variables" by decide)
  | header among =>
    have each : ∀ name ∈ knownHeaders, randomIntName ≠ "include_" ++ name := by decide
    exact absurd key (each _ among)
  | helper known =>
    cases defined.symm.trans known
    rw [found, under]
  | procedure =>
    exact absurd key.symm (Emission.procedureKey_ne (show randomIntName.toList.head? ≠ some '%' by decide))

/-- No procedure is under the name of the helper function. -/
theorem Assembled.not_has_helper (assembled : Assembled s last tops codes)
    (bare : ∀ name, s.definitions.get? (procedureKey name) = none) (defined : last.randomInt? = some helper) :
    ¬ last.definitions.has (procedureKey helper) := by
  intro isProcedure
  obtain ⟨isPrivate, _⟩ := assembled.settled.apart helper defined
  obtain ⟨text, under⟩ := Option.isSome_iff_exists.mp isProcedure
  rcases assembled.procedures helper text under with earlier | ⟨_, _, _, _, defines⟩
  · rw [bare helper] at earlier
    cases earlier
  · exact isPrivate.2 _ defines.2.1

/-- Apart from the lines of the helper function, no line of a source declares anything under its name. -/
theorem Pass.Sourced.unshared {headers procedures : List String} {lines front back : List (List Char)}
    (sourced : last.Sourced source headers procedures lines) (defined : last.randomInt? = some helper)
    (has : last.definitions.has randomIntName) (noProcedure : ¬ last.definitions.has (procedureKey helper))
    (states : last.States 0 0 [] 1 (helperLines helper))
    (split : front ++ firmOf (helperLines helper) ++ back = firmLines source.toList) :
    ∀ line ∈ front ++ back, ∀ lead ∈ procedureLead :: countLeads, wordBehind? lead line ≠ some helper := by
  have procedure : helper ∉ (firmLines source.toList).filterMap (wordBehind? procedureLead) := by
    rw [sourced.filterMap_wordBehind? 'v' rfl (by decide), sourced.states.procedures, sourced.defined]
    exact noProcedure
  have counter : helper ∉ (firmLines source.toList).filterMap (wordBehind? "for (int ") := by
    rw [sourced.filterMap_wordBehind? 'f' rfl (by decide)]
    intro among
    obtain ⟨line, member, word⟩ := List.mem_filterMap.mp among
    exact sourced.states.counts helper defined line member word
  have declared : helper ∉ (front ++ back).filterMap (wordBehind? "int ") := by
    have once := sourced.states.declared helper defined
    rw [if_pos has, ← sourced.filterMap_wordBehind? 'i' rfl (by decide), ← split, List.filterMap_append,
      List.filterMap_append] at once
    rw [List.filterMap_append]
    refine not_mem_of_count_eq_one once ?_
    rw [states.filterMap_firmOf]
    exact List.count_pos_iff.mp (by rw [states.declared helper defined]; decide)
  have inside : front ++ back ⊆ firmLines source.toList := by
    rw [← split, List.append_assoc]
    exact List.append_subset.mpr ⟨List.subset_append_left .., fun line member => by simp [member]⟩
  intro line member lead among word
  simp only [countLeads, List.mem_cons, List.not_mem_nil, or_false] at among
  rcases among with rfl | rfl | rfl
  · exact procedure (List.mem_filterMap.mpr ⟨line, inside member, word⟩)
  · exact declared (List.mem_filterMap.mpr ⟨line, member, word⟩)
  · exact counter (List.mem_filterMap.mpr ⟨line, inside member, word⟩)

/-- The helper function is defined in one place, and called by its name there. -/
theorem Assembled.shares (assembled : Assembled s last tops codes)
    (bare : ∀ name, s.definitions.get? (procedureKey name) = none) (heads : last.Heads codes source)
    (defined : last.randomInt? = some helper) : last.Shares tops source helper := by
  obtain ⟨headers, procedures, lines, sourced⟩ := assembled.exists_sourced bare heads
  obtain ⟨isPrivate, leads⟩ := assembled.settled.apart helper defined
  have found := assembled.get?_helper defined
  have has : last.definitions.has randomIntName := by
    rw [Table.has, found]
    rfl
  obtain ⟨other, known, isName⟩ := assembled.settled.sound.helper has
  cases defined.symm.trans known
  have states := states_helper defined isName leads
  have text : firmLines (Emission.sourceUnder helper Template.randomIntSource).toList =
      firmOf (helperLines helper) :=
    firmLines_of_closed states.oneLine (by rw [← Emission.sourceUnder_randomInt, String.toList_append]; rfl)
  obtain ⟨front, back, split, others⟩ := exists_around_of_heads heads found
  rw [text] at split
  have unshared := sourced.unshared defined has (assembled.not_has_helper bare defined) states split.symm
  refine ⟨isName, ⟨front, back, split, unshared, fun stack stands head generated kind => ?_⟩, isPrivate.2⟩
  obtain ⟨text, place, line, member, _, seen, _⟩ := assembled.exists_place stands generated
  rw [BlockHead.IsSeen, kind] at seen
  obtain ⟨name, low, high, named, within⟩ := seen
  cases defined.symm.trans named
  refine ⟨low, high, line, others text (place.imp_left ?_) member, within⟩
  rintro ⟨name, found⟩
  exact ⟨procedureKey name, Emission.procedureKey_ne (show randomIntName.toList.head? ≠ some '%' by decide),
    found⟩

end Included

end BlockCompiler

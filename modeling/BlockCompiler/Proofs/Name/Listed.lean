import BlockCompiler.Proofs.Name.Runs

/-!
Names that are given identifiers one after the other, and the identifiers read off the list afterwards.
-/

namespace BlockCompiler

/-- The identifier that a name has in a list of identifiers, given the names they belong to. The case of names
does not matter. -/
def listedName? : (names identifiers : List String) → String → Option String
  | first :: rest, identifier :: others, name =>
    if sameName first name then some identifier else listedName? rest others name
  | _, _, _ => none

namespace Registry

/-- Names have their identifiers in a registry, one by one. -/
def Lists (registry : Registry) (category : NameCategory) (names identifiers : List String) : Prop :=
  List.Forall₂ (fun name chosen => registry.assigned.get? (nameKey name category) = some chosen)
    names identifiers

variable {registry : Registry} {names identifiers : List String} {category : NameCategory}

theorem consistent_ofReserved (words : List String) : (ofReserved words "").Consistent :=
  ⟨rfl, fun key text found => by simp [ofReserved, reserve, Table.get?] at found,
    fun key other text found => by simp [ofReserved, reserve, Table.get?] at found⟩

/-- The names that are asked for one after the other have the identifiers that are given, and no name loses
the one it has. -/
theorem Consistent.getNames (consistent : registry.Consistent) (names : List String)
    (category : NameCategory) :
    (registry.getNames names category).2.Consistent ∧
      (∀ key text, registry.assigned.get? key = some text →
      (registry.getNames names category).2.assigned.get? key = some text) ∧
      (registry.getNames names category).2.Lists category names (registry.getNames names category).1 := by
  induction names generalizing registry with
  | nil => exact ⟨consistent, fun _ _ found => found, .nil⟩
  | cons name rest ih =>
    have step := call_step consistent.unled (.get name category)
    obtain ⟨consistentThere, stays, others⟩ := ih (step.consistent consistent)
    exact ⟨consistentThere, fun key text found => stays key text (step.assigned_stays found),
      .cons (stays _ _ step.get_assigned) others⟩

/-- An identifier that is listed belongs to a name. -/
theorem Lists.exists_name (lists : registry.Lists category names identifiers) {chosen : String}
    (among : chosen ∈ identifiers) :
    ∃ name ∈ names, registry.assigned.get? (nameKey name category) = some chosen := by
  induction lists with
  | nil => cases among
  | cons here _ ih =>
    rcases List.mem_cons.mp among with rfl | later
    · exact ⟨_, List.mem_cons_self .., here⟩
    · obtain ⟨name, member, assigned⟩ := ih later
      exact ⟨name, List.mem_cons_of_mem _ member, assigned⟩

/-- Different names have different identifiers. -/
theorem Lists.nodup (lists : registry.Lists category names identifiers) (consistent : registry.Consistent)
    (distinct : (names.map lower).Nodup) : identifiers.Nodup := by
  induction lists with
  | nil => exact List.nodup_nil
  | cons here others ih =>
    obtain ⟨apart, distinct⟩ := List.nodup_cons.mp distinct
    refine List.nodup_cons.mpr ⟨fun again => apart ?_, ih distinct⟩
    obtain ⟨other, among, assigned⟩ := Lists.exists_name others again
    rw [← (nameKey_inj.mp (consistent.apart _ _ _ assigned here)).1]
    exact List.mem_map_of_mem among

/-- What is read off the list for a name is the identifier that the registry has for it. -/
theorem Lists.of_listedName? (lists : registry.Lists category names identifiers) {name chosen : String}
    (listed : listedName? names identifiers name = some chosen) :
    chosen ∈ identifiers ∧ registry.assigned.get? (nameKey name category) = some chosen := by
  induction lists with
  | nil => cases listed
  | @cons first identifier _ _ here _ ih =>
    by_cases same : sameName first name
    · rw [listedName?, if_pos same] at listed
      obtain rfl : identifier = chosen := Option.some.inj listed
      rw [← nameKey_inj.mpr ⟨of_decide_eq_true same, rfl⟩]
      exact ⟨List.mem_cons_self .., here⟩
    · rw [listedName?, if_neg same] at listed
      obtain ⟨among, assigned⟩ := ih listed
      exact ⟨List.mem_cons_of_mem _ among, assigned⟩

/-- An identifier is read off the list for each of the names, in whatever case. -/
theorem Lists.isSome_listedName? (lists : registry.Lists category names identifiers) {name : String}
    (known : lower name ∈ names.map lower) : (listedName? names identifiers name).isSome := by
  induction lists with
  | nil => cases known
  | @cons first identifier _ _ here _ ih =>
    by_cases same : sameName first name
    · rw [listedName?, if_pos same]
      rfl
    · rw [listedName?, if_neg same]
      rcases List.mem_cons.mp known with is | later
      · exact absurd (decide_eq_true is.symm) same
      · exact ih later

/-- For each of the names that are listed, its identifier is read off the list. -/
theorem Lists.map_listedName? (lists : registry.Lists category names identifiers)
    (distinct : (names.map lower).Nodup) :
    names.map (listedName? names identifiers) = identifiers.map some := by
  induction lists with
  | nil => rfl
  | @cons first identifier rest others _ _ ih =>
    obtain ⟨apart, distinct⟩ := List.nodup_cons.mp distinct
    rw [List.map_cons, List.map_cons, ← ih distinct, listedName?,
      if_pos (show sameName first first from decide_eq_true rfl)]
    refine congrArg (some identifier :: ·) (List.map_congr_left fun name member => ?_)
    have differs : ¬ sameName first name :=
      fun same => apart (of_decide_eq_true same ▸ List.mem_map_of_mem member)
    rw [listedName?, if_neg differs]

/-- Two identifiers that are read off the list are the same just if the names are, whatever their case. -/
theorem Lists.listedName?_inj (lists : registry.Lists category names identifiers)
    (consistent : registry.Consistent) {name other chosen another : String}
    (listed : listedName? names identifiers name = some chosen)
    (listedOther : listedName? names identifiers other = some another) :
    chosen = another ↔ lower name = lower other := by
  have assigned := (lists.of_listedName? listed).2
  have assignedOther := (lists.of_listedName? listedOther).2
  constructor
  · rintro rfl
    exact (nameKey_inj.mp (consistent.apart _ _ _ assigned assignedOther)).1
  · intro same
    rw [nameKey_inj.mpr ⟨same, rfl⟩, assignedOther] at assigned
    exact (Option.some.inj assigned).symm

end Registry

end BlockCompiler

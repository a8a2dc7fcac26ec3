import BlockCompiler.Proofs.Document.Built

/-!
The variables of a workspace: those that the document declares come first, then those that its blocks use,
each name once whatever its case.
-/

namespace BlockCompiler

/-- Declarations with one more that is wanted, unless a variable of its name is declared. -/
def declareOne (declared : List Variable) (wanted : Variable) : List Variable :=
  if (declared.map fun known => lower known.name).contains (lower wanted.name) then declared
    else declared ++ [wanted]

/-- Declarations with some more that are wanted, one after another. -/
def declareAll (declared wanted : List Variable) : List Variable := wanted.foldl declareOne declared

/-- The variable that a block uses, if it uses one. -/
def BlockContent.used (content : BlockContent) : List Variable :=
  match content.field "VAR" with
  | .text name => if name ≠ "" then [{ name }] else []
  | _ => []

mutual

/-- The variables that the blocks of a stack use, in the order in which they are declared. -/
def Stack.used : StackSpec → List Variable
  | .empty => []
  | .block spec inputs next => inputs.used ++ next.used ++ spec.content.used

/-- The variables that the blocks in some rows use. -/
def Rows.used : Rows BlockSpec String → List Variable
  | .nil => []
  | .cons _ plugged rest => plugged.used ++ rest.used

end

section Declare

variable {declared wanted more : List Variable} {v : Variable}

theorem declareAll_append :
    declareAll declared (wanted ++ more) = declareAll (declareAll declared wanted) more :=
  List.foldl_append

theorem nodup_declareOne (distinct : (declared.map fun known => lower known.name).Nodup) :
    ((declareOne declared v).map fun known => lower known.name).Nodup := by
  unfold declareOne
  split_ifs with known
  · exact distinct
  · rw [List.map_append, List.nodup_append]
    refine ⟨distinct, List.nodup_singleton _, ?_⟩
    intro name here other last same
    rw [List.map_singleton, List.mem_singleton] at last
    exact known (List.contains_iff_mem.mpr (last ▸ same ▸ here))

/-- No two declarations have one name, whatever its case. -/
theorem nodup_declareAll (distinct : (declared.map fun known => lower known.name).Nodup) :
    ((declareAll declared wanted).map fun known => lower known.name).Nodup := by
  induction wanted generalizing declared with
  | nil => exact distinct
  | cons v rest ih => exact ih (nodup_declareOne distinct)

theorem prefix_declareAll : declared <+: declareAll declared wanted := by
  induction wanted generalizing declared with
  | nil => exact List.prefix_rfl
  | cons v rest ih =>
    refine List.IsPrefix.trans ?_ ih
    unfold declareOne
    split_ifs
    · exact List.prefix_rfl
    · exact List.prefix_append _ _

/-- What is wanted is declared. -/
theorem declared_of_wanted (member : v ∈ wanted) :
    lower v.name ∈ (declareAll declared wanted).map fun known => lower known.name := by
  induction wanted generalizing declared with
  | nil => cases member
  | cons first rest ih =>
    rcases List.mem_cons.mp member with rfl | later
    · have here : lower v.name ∈ (declareOne declared v).map fun known => lower known.name := by
        unfold declareOne
        split_ifs with known
        · exact List.contains_iff_mem.mp known
        · simp
      have onwards : declareOne declared v <+: declareAll declared (v :: rest) := prefix_declareAll
      exact (onwards.map _).subset here
    · exact ih later

/-- Nothing is added where all that is wanted is declared. -/
theorem declareAll_of_declared
    (all : ∀ v ∈ wanted, lower v.name ∈ declared.map fun known => lower known.name) :
    declareAll declared wanted = declared := by
  induction wanted with
  | nil => rfl
  | cons v rest ih =>
    have here : declareOne declared v = declared :=
      if_pos (List.contains_iff_mem.mpr (all v (List.mem_cons_self ..)))
    rw [declareAll, List.foldl_cons, here]
    exact ih fun v later => all v (List.mem_cons_of_mem _ later)

/-- Different declarations are all taken. -/
theorem declareAll_of_nodup (distinct : ((declared ++ wanted).map fun known => lower known.name).Nodup) :
    declareAll declared wanted = declared ++ wanted := by
  induction wanted generalizing declared with
  | nil => rw [List.append_nil]; rfl
  | cons v rest ih =>
    have apart : lower v.name ∉ declared.map fun known => lower known.name := by
      rw [List.map_append, List.nodup_append] at distinct
      exact fun member => distinct.2.2 _ member _ (List.mem_cons_self ..) rfl
    have here : declareOne declared v = declared ++ [v] := if_neg (by rwa [List.contains_iff_mem])
    have others := @ih (declared ++ [v]) (by rwa [List.append_assoc])
    rw [List.append_assoc] at others
    rw [declareAll, List.foldl_cons, here]
    exact others

end Declare

namespace Edit

open Workspace

variable {ws t : Workspace} {u : Unit}

theorem declare_eq (ws : Workspace) (wanted : Variable) :
    (ws.declare wanted).2 = { ws with declared := declareOne ws.declared wanted } := by
  unfold Workspace.declare declareOne
  cases known : ws.variableNamed? wanted.name with
  | some found =>
    have named : (ws.declared.map fun known => lower known.name).contains (lower wanted.name) := by
      rw [List.contains_iff_mem]
      exact List.mem_map.mpr ⟨found, List.mem_of_find?_eq_some known, by simpa using List.find?_some known⟩
    rw [if_pos named]
  | none =>
    have unnamed : ¬ (ws.declared.map fun known => lower known.name).contains (lower wanted.name) := by
      rw [List.contains_iff_mem, List.mem_map]
      rintro ⟨found, member, same⟩
      have := List.find?_eq_none.mp known found member
      simp [same] at this
    rw [if_neg unnamed]

theorem yields_discard_declare {wanted : Variable} :
    Yields (discard <| declareVariable wanted) ws u t ↔
    t = { ws with declared := declareOne ws.declared wanted } := by
  rw [← declare_eq]
  constructor
  · intro declared
    obtain ⟨_, known, _⟩ := yields_map.mp declared
    exact (yields_declareVariable.mp known).2
  · rintro rfl
    exact yields_map.mpr ⟨_, yields_declareVariable.mpr ⟨rfl, rfl⟩, rfl⟩

/-- A block declares the variable that it uses. -/
theorem yields_declareUsed {b : Nat} :
    Yields (declareUsed b) ws u t ↔
      t = { ws with declared := declareAll ws.declared (ws.block b).toBlockContent.used } := by
  unfold declareUsed BlockContent.used
  rw [yields_get_bind]
  cases field : (ws.block b).field "VAR" with
  | text name =>
    by_cases named : name = ""
    · simp [named, declareAll]
    · simp only [if_pos (show name ≠ "" from named)]
      exact yields_discard_declare
  | _ => simp [declareAll]

/-- Declarations come one after another. -/
theorem yields_declareDocument {wanted : List Variable} :
    Yields (wanted.forM fun one => discard <| declareVariable one) ws u t ↔
      t = { ws with declared := declareAll ws.declared wanted } := by
  induction wanted generalizing ws with
  | nil =>
    show Yields (pure ⟨⟩) ws u t ↔ _
    simp [declareAll]
  | cons first rest ih =>
    show Yields (_ >>= fun _ => rest.forM _) ws u t ↔ _
    rw [yields_bind]
    constructor
    · rintro ⟨_, next, declares, others⟩
      obtain rfl := yields_discard_declare.mp declares
      exact ih.mp others
    · intro same
      exact ⟨⟨⟩, _, yields_discard_declare.mpr rfl, ih.mpr same⟩

end Edit

end BlockCompiler

import BlockCompiler.Proofs.Document.Buildable
import BlockCompiler.Proofs.Document.Described
import BlockCompiler.Proofs.Document.Shown

/-!
Which values are loaded as workspaces, and what is known of the workspaces: a value must describe a document
whose ids are pairwise different, and all stacks of the document must be such that they can be built.
-/

namespace BlockCompiler

/-- What a value says about its document apart from the blocks. -/
structure Json.Declares (data : Json) (document : Document) : Prop where
  isObject : data.isObject
  name : data.member? "name" = some (.text document.name)
  blocks : ∃ blocks, data.member? "blocks" = some (.list blocks)
  options : ((data.member? "options").getD (.object [])).isObject
  base : ∀ value, (data.entries "options").get? "one_based_index" = some value → value.isBool
  oneBased : document.oneBased = (((data.entries "options").get? "one_based_index").getD .null).isTrue
  declared : ∃ declarations, (data.member? "variables").getD (.list []) = .list declarations ∧
    readItemsAt readVariable "variables" 0 declarations = .ok document.declared

/-- The ids that the blocks of a document are given, empty ones among them. -/
def Document.ownIds (document : Document) : List String := document.tops.flatMap Stack.ownIds

/-- A value describes a document, whatever the ids of its blocks. -/
structure Document.DescribedBy (strict : Bool) (document : Document) (data : Json) : Prop where
  declares : data.Declares document
  tops : List.Forall₂ (Stack.DescribedBy strict) document.tops data.tops

section Read

variable {strict : Bool} {data : Json} {document : Document}

/-- Reading items with steps that keep no account keeps none. -/
theorem accepts_readItemsAt_lift {α : Type} {read : String → Json → Except SchemaError α} {place : String}
    {i : Nat} {items : List Json} {s t : SchemaState} {results : List α} :
    Accepts (readItemsAt (fun place value => (liftM (read place value) : Checking α)) place i items) s results
      t ↔
      readItemsAt read place i items = .ok results ∧ t = s := by
  induction items generalizing i s t results with
  | nil =>
    rw [readItemsAt, readItemsAt, accepts_pure]
    show _ ↔ Except.ok [] = Except.ok results ∧ t = s
    rw [Except.ok.injEq]
    exact and_congr_left fun _ => eq_comm
  | cons item rest ih =>
    have shape : readItemsAt read place i (item :: rest) =
        (read s!"{place}[{i}]" item >>= fun value => readItemsAt read place (i + 1) rest >>= fun others =>
          pure (value :: others)) := by
      rw [readItemsAt]
    rw [readItemsAt, accepts_bind, shape]
    constructor
    · rintro ⟨value, _, first, accepted⟩
      obtain ⟨others, _, second, last⟩ := accepts_bind.mp accepted
      obtain ⟨rfl, rfl⟩ := accepts_pure.mp last
      obtain ⟨readFirst, rfl⟩ := accepts_lift.mp first
      obtain ⟨readOthers, rfl⟩ := ih.mp second
      rw [readFirst, readOthers]
      exact ⟨rfl, rfl⟩
    · rintro ⟨whole, rfl⟩
      cases first : read s!"{place}[{i}]" item with
      | error error =>
        rw [first] at whole
        cases whole
      | ok value =>
        rw [first] at whole
        cases second : readItemsAt read place (i + 1) rest with
        | error error =>
          rw [second] at whole
          cases whole
        | ok others =>
          rw [second] at whole
          cases whole
          exact ⟨value, t, accepts_lift.mpr ⟨rfl, rfl⟩, accepts_bind.mpr ⟨others, t, ih.mpr ⟨second, rfl⟩,
            accepts_pure.mpr ⟨rfl, rfl⟩⟩⟩

theorem described_readStacks {place : String} {i : Nat} {values : List Json} {tops : List StackSpec}
    {s t : SchemaState} (accepted : Accepts (readItemsAt (readStack strict) place i values) s tops t) :
    List.Forall₂ (Stack.DescribedBy strict) tops values ∧ s.Misses (tops.flatMap Stack.ownIds) ∧
      t.ids = (tops.flatMap Stack.ownIds).reverse ++ s.ids := by
  induction values generalizing i s tops with
  | nil =>
    rw [readItemsAt] at accepted
    obtain ⟨rfl, rfl⟩ := accepts_pure.mp accepted
    exact ⟨.nil, SchemaState.misses_nil, rfl⟩
  | cons value rest ih =>
    rw [readItemsAt] at accepted
    obtain ⟨stack, u, first, accepted⟩ := accepts_bind.mp accepted
    obtain ⟨others, v, second, accepted⟩ := accepts_bind.mp accepted
    obtain ⟨rfl, rfl⟩ := accepts_pure.mp accepted
    obtain ⟨described, new, ids⟩ := described_readStack first
    obtain ⟨describedRest, newRest, idsRest⟩ := ih second
    rw [List.flatMap_cons]
    exact ⟨.cons described describedRest, (SchemaState.misses_append ids).mpr ⟨new, newRest⟩,
      ids_after ids idsRest⟩

theorem exists_readStacks {values : List Json} {tops : List StackSpec} {s : SchemaState}
    (described : List.Forall₂ (Stack.DescribedBy strict) tops values)
    (misses : s.Misses (tops.flatMap Stack.ownIds)) (place : String) (i : Nat) :
    ∃ t, Accepts (readItemsAt (readStack strict) place i values) s tops t := by
  induction described generalizing i s with
  | nil => exact ⟨s, accepts_pure.mpr ⟨rfl, rfl⟩⟩
  | @cons stack value tops values first _ ih =>
    rw [List.flatMap_cons] at misses
    have here : s.Misses stack.ownIds :=
      ⟨(List.nodup_append.mp misses.1).1, fun id member => misses.2 id (List.mem_append_left _ member)⟩
    obtain ⟨u, reads⟩ := exists_readStack first here s!"{place}[{i}]"
    have after := (described_readStack reads).2.2
    obtain ⟨t, others⟩ := ih ((SchemaState.misses_append after).mp misses).2 (i + 1)
    rw [readItemsAt]
    exact ⟨t, accepts_bind.mpr ⟨_, _, reads, accepts_bind.mpr ⟨_, _, others, accepts_pure.mpr ⟨rfl, rfl⟩⟩⟩⟩

/-- A document is read from a value just if it is accepted from the empty account. -/
theorem ofJson_ok : (∃ unknown, Document.ofJson strict data = .ok (document, unknown)) ↔
    ∃ t, Accepts (readDocumentValue strict data) {} document t := by
  unfold Document.ofJson Accepts
  cases (readDocumentValue strict data).run {} with
  | error error =>
    constructor
    · rintro ⟨_, given⟩
      cases given
    · rintro ⟨_, given⟩
      cases given
  | ok pair =>
    constructor
    · rintro ⟨unknown, given⟩
      cases given
      exact ⟨pair.2, rfl⟩
    · rintro ⟨t, given⟩
      cases given
      exact ⟨_, rfl⟩

/-- A document is read from the values that describe it, if no two of its blocks have one id. -/
theorem ofJson_iff : (∃ unknown, Document.ofJson strict data = .ok (document, unknown)) ↔
    document.DescribedBy strict data ∧ document.ownIds.Nodup := by
  rw [ofJson_ok]
  constructor
  · rintro ⟨t, accepted⟩
    unfold readDocumentValue at accepted
    cases data with
    | object entries =>
      obtain ⟨name, _, required, accepted⟩ := accepts_bind.mp accepted
      obtain ⟨named, rfl⟩ := accepts_lift.mp required
      obtain ⟨blocks, _, found, accepted⟩ := accepts_bind.mp accepted
      obtain ⟨present, rfl⟩ := accepts_lift.mp found
      obtain ⟨isText, accepted⟩ := accepts_check.mp accepted
      have isText := requireForm_ok.mp isText
      cases blocks with
      | list blocks =>
        obtain ⟨options, accepted⟩ := accepts_check.mp accepted
        obtain ⟨base, accepted⟩ := accepts_check.mp accepted
        generalize declarations_eq :
          (Table.get? entries "variables").getD (Json.list []) = declarations at accepted
        cases declarations with
        | list declarations =>
          obtain ⟨declared, _, declares, accepted⟩ := accepts_bind.mp accepted
          obtain ⟨readDeclared, rfl⟩ := accepts_readItemsAt_lift.mp declares
          obtain ⟨tops, _, read, accepted⟩ := accepts_bind.mp accepted
          obtain ⟨rfl, rfl⟩ := accepts_pure.mp accepted
          have present := requireMember_ok.mp present
          have topsIs : (Json.object entries).tops = blocks := Json.tops_eq present
          obtain ⟨described, new, _⟩ := described_readStacks read
          have entriesIs : (Json.object entries).entries "options" =
              ((Table.get? entries "options").getD (.object [])).members := by
            show ((Table.get? entries "options").getD .null).members = _
            cases Table.get? entries "options" <;> rfl
          refine ⟨⟨⟨rfl, ?_, ⟨blocks, present⟩, requireForm_ok.mp options, ?_, ?_, declarations,
            declarations_eq,
            readDeclared⟩, topsIs ▸ described⟩, new.1⟩
          · cases name with
            | text name => exact requireMember_ok.mp named
            | _ => cases isText
          · rw [entriesIs]
            exact checkMember_ok.mp base
          · rw [entriesIs]
        | _ => exact absurd accepted not_accepts_throw
      | _ => exact absurd accepted not_accepts_throw
    | _ => exact absurd accepted not_accepts_throw
  · rintro ⟨⟨declares, described⟩, distinct⟩
    cases data with
    | object entries =>
      obtain ⟨blocks, present⟩ := declares.blocks
      have present : Table.get? entries "blocks" = some (.list blocks) := present
      have named : Table.get? entries "name" = some (.text document.name) := declares.name
      obtain ⟨declarations, found, declared⟩ := declares.declared
      have found : (Table.get? entries "variables").getD (Json.list []) = .list declarations := found
      have topsIs : (Json.object entries).tops = blocks := Json.tops_eq present
      rw [topsIs] at described
      obtain ⟨t, reads⟩ := exists_readStacks (s := ⟨[], []⟩) described ⟨distinct, by simp⟩ "blocks" 0
      have entriesIs : (Json.object entries).entries "options" =
          ((Table.get? entries "options").getD (.object [])).members := by
        show ((Table.get? entries "options").getD .null).members = _
        cases Table.get? entries "options" <;> rfl
      have base := declares.base
      have oneBased := declares.oneBased
      rw [entriesIs] at base oneBased
      refine ⟨t, ?_⟩
      unfold readDocumentValue
      refine accepts_bind.mpr ⟨_, _, accepts_lift.mpr ⟨requireMember_ok.mpr named, rfl⟩, ?_⟩
      refine accepts_bind.mpr ⟨_, _, accepts_lift.mpr ⟨requireMember_ok.mpr present, rfl⟩, ?_⟩
      refine accepts_check.mpr ⟨requireForm_ok.mpr rfl, ?_⟩
      refine accepts_check.mpr ⟨requireForm_ok.mpr declares.options, ?_⟩
      refine accepts_check.mpr ⟨checkMember_ok.mpr base, ?_⟩
      rw [found]
      refine accepts_bind.mpr ⟨_, _, accepts_readItemsAt_lift.mpr ⟨declared, rfl⟩, ?_⟩
      refine accepts_bind.mpr ⟨_, _, reads, ?_⟩
      refine accepts_pure.mpr ⟨?_, rfl⟩
      obtain ⟨name, _, _, _⟩ := document
      simp only at oneBased
      rw [oneBased]
      rfl
    | _ => cases declares.isObject

end Read

mutual

/-- No row of a stack that a value describes is empty. -/
theorem Stack.DescribedBy.full {strict : Bool} {stack : StackSpec} {value : Json}
    (described : stack.DescribedBy strict value) : stack.Full ∧ stack.head?.isSome := by
  match stack with
  | .empty => exact described.elim
  | .block spec inputs next =>
    obtain ⟨_, _, _, within, below⟩ := described
    refine ⟨⟨within.full, ?_⟩, rfl⟩
    cases next with
    | empty => trivial
    | block nextSpec nextInputs following =>
      generalize value.turn? .next = follower at below
      cases follower with
      | none => cases below
      | some follower => exact (Stack.DescribedBy.full below).1

theorem Rows.DescribedIn.full {strict : Bool} {rows : Rows BlockSpec String} {members : Table Json}
    (described : rows.DescribedIn strict members) : rows.Full := by
  match rows with
  | .nil => trivial
  | .cons name plugged rest =>
    obtain ⟨value, others, _, first, second⟩ := described
    exact ⟨first.full.2, first.full.1, second.full⟩

end

/-- The ids of a document that are not empty are pairwise different if all its ids are. -/
theorem nodup_ids {tops : List StackSpec} (distinct : (tops.flatMap Stack.ownIds).Nodup) :
    ((tops.flatMap Stack.heads).filterMap BlockSpec.id?).Nodup := by
  have same : (tops.flatMap Stack.heads).filterMap BlockSpec.id? =
      (tops.flatMap Stack.ownIds).filter (· ≠ "") := by
    have pulled : tops.flatMap Stack.ownIds = (tops.flatMap Stack.heads).filterMap (·.ownId) := by
      rw [List.filterMap_flatMap]
      rfl
    rw [pulled, List.filter_filterMap]
    rfl
  rw [same]
  exact distinct.filter _

mutual

/-- The variables that a stack uses are those that its blocks use. -/
theorem Stack.mem_used (stack : StackSpec) (v : Variable) :
    v ∈ stack.used ↔ ∃ spec ∈ stack.heads, v ∈ spec.content.used := by
  match stack with
  | .empty => simp [Stack.used, Stack.heads]
  | .block spec inputs next =>
    have inside := Rows.mem_used inputs v
    have below := Stack.mem_used next v
    simp only [Stack.used, Stack.heads, List.mem_append, inside, below, List.exists_mem_cons_iff,
      or_and_right, exists_or]
    exact or_comm

theorem Rows.mem_used (rows : Rows BlockSpec String) (v : Variable) :
    v ∈ rows.used ↔ ∃ spec ∈ rows.heads, v ∈ spec.content.used := by
  match rows with
  | .nil => simp [Rows.used, Rows.heads]
  | .cons name plugged rest =>
    have here := Stack.mem_used plugged v
    have there := Rows.mem_used rest v
    simp only [Rows.used, Rows.heads, List.mem_append, here, there, or_and_right, exists_or]

end

/-- What a workspace is that is loaded from a document. -/
structure Workspace.Loads (ws : Workspace) (oneBased : Option Bool) (document : Document) : Prop where
  base : ws.oneBased = oneBased.getD document.oneBased
  declared : ws.declared = declareAll [] (document.declared ++ document.tops.flatMap Stack.used)
  tops : ws.topBlocks = starts 0 document.tops
  shown : List.Forall₂ ws.HasTop (starts 0 document.tops) document.tops
  blocks : List.Forall₂ ws.Makes (List.range ws.blocks.size) (document.tops.flatMap Stack.heads)
  builds : ∀ top ∈ document.tops, top.Full ∧ top.head?.isSome ∧ top.Builds false

namespace Edit

open Workspace

variable {ws t : Workspace} {u : Unit}

theorem builds_buildTops {tops : List StackSpec} (full : ∀ top ∈ tops, top.Full)
    (built : Yields (tops.forM fun stack => discard <| buildStack false stack) ws u t) :
    (∀ top ∈ tops, top.Builds false) ∧ t.declared = declareAll ws.declared (tops.flatMap Stack.used) := by
  induction tops generalizing ws with
  | nil =>
    obtain ⟨_, rfl⟩ := yields_pure.mp built
    exact ⟨by simp, rfl⟩
  | cons top rest ih =>
    obtain ⟨_, next, first, others⟩ := yields_bind.mp built
    obtain ⟨root, run, _⟩ := yields_map.mp first
    obtain ⟨_, builds, _, declared⟩ := builds_of_yields (full top (List.mem_cons_self ..)) run
    obtain ⟨buildsRest, declaredRest⟩ :=
      ih (fun other member => full other (List.mem_cons_of_mem _ member)) others
    refine ⟨List.forall_mem_cons.mpr ⟨builds, buildsRest⟩, ?_⟩
    rw [declaredRest, declared, List.flatMap_cons, declareAll_append]

/-- All stacks are built where their ids are new, unless one of them cannot be built. -/
theorem runs_buildTops {tops : List StackSpec} (tidy : ∀ top ∈ tops, top.Tidy)
    (stops : ∀ top ∈ tops, ∀ spec ∈ top.heads, spec.stop = none)
    (members : ∀ b ∈ ws.members, b < ws.blocks.size)
    (fresh : (ws.ids ++ (tops.flatMap Stack.heads).filterMap BlockSpec.id?).Nodup) :
    Runs (fun error => error.isUnfit ∧ ¬ ∀ top ∈ tops, top.Builds false)
      (tops.forM fun stack => discard <| buildStack false stack : Edit Unit) ws fun _ _ => True := by
  induction tops generalizing ws with
  | nil => exact runs_pure trivial
  | cons top rest ih =>
    obtain ⟨tidyHere, tidyRest⟩ := List.forall_mem_cons.mp tidy
    obtain ⟨stopsHere, stopsRest⟩ := List.forall_mem_cons.mp stops
    rw [List.flatMap_cons, List.filterMap_append] at fresh
    have first : Runs (fun error => error.isUnfit ∧ ¬ top.Builds false)
        (discard <| buildStack false top : Edit Unit) ws fun _ _ => True :=
      (runs_buildStack tidyHere stopsHere members
        (List.Sublist.nodup ((List.sublist_append_left ..).append_left _) fresh)).bind
        fun _ _ _ => runs_pure trivial
    refine (first.excuse fun error ⟨unfit, cannot⟩ =>
      ⟨unfit, fun all => cannot (all top (List.mem_cons_self ..))⟩).traced.bind
      fun _ next yields => ?_
    obtain ⟨root, made, _⟩ := yields_map.mp yields
    obtain ⟨added, grown, carried, _⟩ := carries_buildStack tidyHere.full made
    have ids : next.ids = ws.ids ++ top.heads.filterMap BlockSpec.id? := by
      rw [added.ids grown members, ids_of_makes carried.makes]
    rw [← List.append_assoc, ← ids] at fresh
    exact (ih tidyRest stopsRest (added.bounded members) fresh).excuse fun error ⟨unfit, cannot⟩ =>
      ⟨unfit, fun all => cannot fun other member => all other (List.mem_cons_of_mem _ member)⟩

end Edit

namespace Workspace

variable {ws : Workspace}

theorem CarriesAll.makes {n : Nat} {tops : List StackSpec} (carries : ws.CarriesAll n tops) :
    List.Forall₂ ws.Makes (List.range' n (forestSize tops)) (tops.flatMap Stack.heads) := by
  induction tops generalizing n with
  | nil => exact .nil
  | cons top rest ih =>
    obtain ⟨_, here, _, others⟩ := carries
    rw [forestSize, ← List.range'_append_1, List.flatMap_cons]
    exact List.rel_append here.makes (ih others)

end Workspace

section Load

variable {strict : Bool} {oneBased : Option Bool} {data : Json} {document : Document} {ws : Workspace}

theorem toWorkspace_ok : document.toWorkspace oneBased = .ok ws ↔
    Yields (Edit.buildDocument document)
    { name := document.name, oneBased := oneBased.getD document.oneBased } () ws := by
  unfold Document.toWorkspace Yields
  dsimp only
  generalize (Edit.buildDocument document).run _ = outcome
  obtain ⟨result, next⟩ := (outcome : Except EditError Unit × Workspace)
  cases result with
  | ok value =>
    constructor
    · rintro ⟨⟩
      rfl
    · rintro ⟨⟩
      rfl
  | error error =>
    constructor
    · rintro ⟨⟩
    · rintro ⟨⟩

/-- The workspace that a document describes is as the document says. -/
theorem loads_toWorkspace (full : ∀ top ∈ document.tops, top.Full ∧ top.head?.isSome)
    (built : document.toWorkspace oneBased = .ok ws) : ws.Loads oneBased document := by
  have built := toWorkspace_ok.mp built
  unfold Edit.buildDocument at built
  obtain ⟨_, next, declared, built⟩ := yields_bind.mp built
  obtain rfl := Edit.yields_declareDocument.mp declared
  have proper : ∀ top ∈ document.tops, top.head?.isSome ∧ top.Full := fun top member => (full top member).symm
  obtain ⟨added, _, carries⟩ := Edit.carriesAll_buildTops proper built
  obtain ⟨builds, declared⟩ := Edit.builds_buildTops (fun top member => (full top member).1) built
  have size : ws.blocks.size = forestSize document.tops := by
    rw [added.size]
    exact Nat.zero_add _
  have members : ws.members = List.range' 0 (forestSize document.tops) := added.members
  refine ⟨added.options.2, ?_, ?_, carries.hasTop (by rw [size]; exact Nat.le_of_eq (Nat.zero_add _)), ?_, ?_⟩
  · rw [declared, declareAll_append]
  · rw [Workspace.topBlocks, members]
    exact carries.filter_tops
  · rw [size, List.range_eq_range']
    exact carries.makes
  · exact fun top member => ⟨(full top member).1, (full top member).2, builds top member⟩

/-- A document of tidy stacks, of which ids differ and rows can be counted, is built as a workspace, or some
block does not fit where it should go and a stack cannot be built. -/
theorem runs_buildDocument (tidy : ∀ top ∈ document.tops, top.Tidy)
    (stops : ∀ top ∈ document.tops, ∀ spec ∈ top.heads, spec.stop = none) (distinct : document.ownIds.Nodup)
    (name : String) (base : Bool) :
    Runs (fun error => error.isUnfit ∧ ¬ ∀ top ∈ document.tops, top.Builds false)
      (Edit.buildDocument document)
      { name := name, oneBased := base } fun _ _ => True := by
  unfold Edit.buildDocument
  refine runs_after (a := ⟨⟩) (Edit.yields_declareDocument.mpr rfl) ?_
  exact Edit.runs_buildTops tidy stops (fun b member => by cases member) (nodup_ids distinct)

/-- The workspace that a document describes is there if all stacks can be built and ids differ. -/
theorem exists_toWorkspace (builds : ∀ top ∈ document.tops, top.Full ∧ top.head?.isSome ∧ top.Builds false)
    (distinct : document.ownIds.Nodup) (oneBased : Option Bool) :
    ∃ ws, document.toWorkspace oneBased = .ok ws := by
  have tidy : ∀ top ∈ document.tops, top.Tidy ∧ ∀ spec ∈ top.heads, spec.stop = none :=
    fun top member => (builds top member).2.2.tidy (builds top member).1
  have run := runs_buildDocument (fun top member => (tidy top member).1)
    (fun top member => (tidy top member).2) distinct
    document.name (oneBased.getD document.oneBased)
  obtain ⟨_, ws, built, _⟩ :=
    run.exists_yields fun _ ⟨_, cannot⟩ => cannot fun top member => (builds top member).2.2
  exact ⟨ws, toWorkspace_ok.mpr built⟩

/-- A value is loaded as a workspace just if it describes a document with different ids of which all stacks
can be built. -/
theorem loadWorkspace_ok : loadWorkspace strict oneBased data = .ok ws ↔
    ∃ document : Document, document.DescribedBy strict data ∧ document.ownIds.Nodup ∧
      document.toWorkspace oneBased = .ok ws := by
  have read := @ofJson_iff strict data
  unfold loadWorkspace
  cases result : Document.ofJson strict data with
  | error error =>
    constructor
    · intro given
      cases given
    · rintro ⟨document, described, distinct, _⟩
      obtain ⟨_, given⟩ := read.mpr ⟨described, distinct⟩
      rw [result] at given
      cases given
  | ok pair =>
    obtain ⟨document, unknown⟩ := pair
    obtain ⟨described, distinct⟩ := read.mp ⟨unknown, result⟩
    constructor
    · intro given
      refine ⟨document, described, distinct, ?_⟩
      dsimp only at given
      cases built : document.toWorkspace oneBased with
      | error error =>
        rw [built] at given
        cases given
      | ok found =>
        rw [built] at given
        cases given
        rfl
    · rintro ⟨other, describedOther, distinctOther, built⟩
      obtain ⟨_, given⟩ := read.mpr ⟨describedOther, distinctOther⟩
      rw [result] at given
      cases given
      dsimp only
      rw [built]

theorem Document.DescribedBy.full (described : document.DescribedBy strict data) :
    ∀ top ∈ document.tops, top.Full ∧ top.head?.isSome := by
  have each := described.tops
  generalize data.tops = values at each
  generalize document.tops = tops at each
  induction each with
  | nil => simp
  | cons first _ ih => exact List.forall_mem_cons.mpr ⟨first.full, ih⟩

/-- What is loaded from a value is loaded from the document that the value describes. -/
theorem loads_of_loadWorkspace (loaded : loadWorkspace strict oneBased data = .ok ws) :
    ∃ document : Document, document.DescribedBy strict data ∧ document.ownIds.Nodup ∧
    ws.Loads oneBased document := by
  obtain ⟨document, described, distinct, built⟩ := loadWorkspace_ok.mp loaded
  exact ⟨document, described, distinct, loads_toWorkspace described.full built⟩

/-- A value that describes a document is loaded if ids differ and all stacks can be built. -/
theorem exists_loadWorkspace (described : document.DescribedBy strict data) (distinct : document.ownIds.Nodup)
    (builds : ∀ top ∈ document.tops, top.Builds false) (oneBased : Option Bool) :
    ∃ ws, loadWorkspace strict oneBased data = .ok ws ∧ ws.Loads oneBased document := by
  have full := described.full
  obtain ⟨ws, built⟩ := exists_toWorkspace
    (fun top member => ⟨(full top member).1, (full top member).2, builds top member⟩) distinct oneBased
  exact ⟨ws, loadWorkspace_ok.mpr ⟨document, described, distinct, built⟩, loads_toWorkspace full built⟩

end Load

end BlockCompiler

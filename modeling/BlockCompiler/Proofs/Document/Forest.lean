import BlockCompiler.Proofs.Document.Accepted
import BlockCompiler.Proofs.Document.Listed
import Mathlib.Data.Set.Function
import Mathlib.Logic.Relation

/-!
The loaded workspace is the forest of blocks in the JSON value that it is loaded from.
-/

namespace BlockCompiler

/-- A place in a document: which stack it is in, and the way down from the first block of that stack. -/
structure BlockPlace where
  top : Nat
  path : List Turn
  deriving DecidableEq, Repr

/-- The place that a turn leads to. -/
def BlockPlace.go (place : BlockPlace) (turn : Turn) : BlockPlace :=
  { place with path := place.path ++ [turn] }

/-- The value that a path leads to from the value of a block. -/
def Json.at? (object : Json) : List Turn → Option Json
  | [] => some object
  | turn :: path => (object.turn? turn).bind (·.at? path)

/-- The value of the block at a place of a document. -/
def Json.block? (data : Json) (place : BlockPlace) : Option Json :=
  data.tops[place.top]?.bind (·.at? place.path)

section Numbering

variable {α : Type}

/-- Where a path leads in one of several stacks, when the blocks of all stacks are numbered one after
another. -/
def forestAt? : List (Stack α String) → Nat → List Turn → Option (Nat × Stack α String)
  | [], _, _ => none
  | top :: _, 0, path => top.at? path
  | top :: rest, i + 1, path => (forestAt? rest i path).map fun (k, found) => (top.size + k, found)

/-- The numbers of the heads of several stacks. -/
def starts (n : Nat) : List (Stack α String) → List Nat
  | [] => []
  | top :: rest => n :: starts (n + top.size) rest

variable {tops : List (Stack α String)} {i j k : Nat} {path way : List Turn} {found other : Stack α String}

theorem forestAt?_part (tidy : ∀ top ∈ tops, top.Tidy ∧ top.head?.isSome)
    (reached : forestAt? tops i path = some (k, found)) :
    k + found.size ≤ forestSize tops ∧ found.head?.isSome := by
  induction tops generalizing i k with
  | nil => cases reached
  | cons top rest ih =>
    obtain ⟨topTidy, topProper⟩ := tidy top (List.mem_cons_self ..)
    rw [forestSize]
    cases i with
    | zero =>
      obtain ⟨within, proper, _⟩ := Stack.at?_part topTidy topProper reached
      exact ⟨by omega, proper⟩
    | succ i =>
      obtain ⟨⟨k, _⟩, below, shape⟩ := Option.map_eq_some_iff.mp reached
      cases shape
      obtain ⟨within, proper⟩ := ih (fun top member => tidy top (List.mem_cons_of_mem _ member)) below
      exact ⟨by omega, proper⟩

/-- Different places have different numbers. -/
theorem forestAt?_inj (tidy : ∀ top ∈ tops, top.Tidy ∧ top.head?.isSome)
    (reached : forestAt? tops i path = some (k, found)) (reached' : forestAt? tops j way = some (k, other)) :
    i = j ∧ path = way := by
  induction tops generalizing i j k with
  | nil => cases reached
  | cons top rest ih =>
    obtain ⟨topTidy, topProper⟩ := tidy top (List.mem_cons_self ..)
    have later : ∀ top ∈ rest, top.Tidy ∧ top.head?.isSome := fun top member =>
      tidy top (List.mem_cons_of_mem _ member)
    have inTop : ∀ {path found}, top.at? path = some (k, found) → k < top.size := by
      intro path found reached
      obtain ⟨within, proper, _⟩ := Stack.at?_part topTidy topProper reached
      have := Stack.size_pos.mpr proper
      omega
    cases i with
    | zero =>
      cases j with
      | zero => exact ⟨rfl, Stack.at?_inj topTidy topProper reached reached'⟩
      | succ j =>
        obtain ⟨⟨m, _⟩, _, shape⟩ := Option.map_eq_some_iff.mp reached'
        cases shape
        have := inTop reached
        omega
    | succ i =>
      obtain ⟨⟨m, _⟩, below, shape⟩ := Option.map_eq_some_iff.mp reached
      cases shape
      cases j with
      | zero =>
        have := inTop reached'
        omega
      | succ j =>
        obtain ⟨⟨m', _⟩, below', shape⟩ := Option.map_eq_some_iff.mp reached'
        obtain ⟨sum, rfl⟩ := Prod.mk.inj shape
        obtain rfl : m' = m := by omega
        obtain ⟨rfl, same⟩ := ih later below below'
        exact ⟨rfl, same⟩

/-- Every number belongs to a place. -/
theorem exists_forestAt? (tidy : ∀ top ∈ tops, top.Tidy ∧ top.head?.isSome) (below : k < forestSize tops) :
    ∃ i path found, forestAt? tops i path = some (k, found) := by
  induction tops generalizing k with
  | nil => cases below
  | cons top rest ih =>
    rw [forestSize] at below
    by_cases first : k < top.size
    · obtain ⟨path, found, reached⟩ := Stack.exists_at? (tidy top (List.mem_cons_self ..)).1 first
      exact ⟨0, path, found, reached⟩
    · obtain ⟨i, path, found, reached⟩ := ih (fun top member => tidy top (List.mem_cons_of_mem _ member))
        (show k - top.size < forestSize rest by omega)
      refine ⟨i + 1, path, found, ?_⟩
      have sum : top.size + (k - top.size) = k := by omega
      simp only [forestAt?, reached, Option.map_some, sum]

theorem Stack.at?_append {stack : Stack α String} {turn : Turn} :
    stack.at? (path ++ [turn]) = (stack.at? path).bind fun (k, found) =>
      (found.turn? turn).map fun (j, child) => (k + j, child) := by
  induction path generalizing stack with
  | nil =>
    simp only [List.nil_append, at?, Option.bind_eq_bind, Option.bind_some]
    cases stack.turn? turn <;> simp
  | cons first path ih =>
    rw [List.cons_append, at?, at?]
    cases stack.turn? first with
    | none => rfl
    | some pair =>
      obtain ⟨k, child⟩ := pair
      simp only [Option.bind_eq_bind, Option.bind_some, ih]
      cases child.at? path with
      | none => rfl
      | some pair =>
        obtain ⟨j, found⟩ := pair
        simp only [Option.bind_some]
        cases turned : found.turn? turn <;> simp [turned, Nat.add_assoc]

theorem forestAt?_append {turn : Turn} :
    forestAt? tops i (path ++ [turn]) = (forestAt? tops i path).bind fun (k, found) =>
      (found.turn? turn).map fun (j, child) => (k + j, child) := by
  induction tops generalizing i with
  | nil => rfl
  | cons top rest ih =>
    cases i with
    | zero => exact Stack.at?_append
    | succ i =>
      rw [forestAt?, forestAt?, ih]
      cases forestAt? rest i path with
      | none => rfl
      | some pair =>
        obtain ⟨k, found⟩ := pair
        simp only [Option.bind_some, Option.map_some]
        cases found.turn? turn <;> simp [Nat.add_assoc]

end Numbering

/-- The number of a place. -/
def BlockPlace.number (place : BlockPlace) (tops : List StackSpec) : Nat :=
  ((forestAt? tops place.top place.path).map (·.1)).getD 0

/-- What a path leads to is read as what the path leads to in the stack. -/
theorem Json.ReadAs.at? {strict : Bool} {object : Json} {stack : StackSpec}
    (read : object.ReadAs strict stack) (path : List Turn) :
    Option.Rel (Json.ReadAs strict) (object.at? path) ((stack.at? path).map (·.2)) := by
  induction path generalizing object stack with
  | nil => exact .some read
  | cons turn path ih =>
    have there := read.turn? turn
    rw [Json.at?, Stack.at?]
    cases turned : stack.turn? turn with
    | none =>
      rw [turned] at there
      generalize object.turn? turn = found at there
      cases there
      exact .none
    | some pair =>
      obtain ⟨k, child⟩ := pair
      rw [turned] at there
      generalize object.turn? turn = found at there
      cases there with
      | some readChild =>
        have below := ih readChild
        simp only [Option.bind_eq_bind, Option.bind_some]
        cases reached : child.at? path with
        | none =>
          rw [reached] at below
          exact below
        | some pair =>
          rw [reached] at below
          exact below

/-- The value at a place is read as the stack at the place. -/
theorem readAs_forestAt? {strict : Bool} {values : List Json} {tops : List StackSpec}
    (read : List.Forall₂ (Json.ReadAs strict) values tops) (i : Nat) (path : List Turn) :
    Option.Rel (Json.ReadAs strict) (values[i]?.bind (·.at? path)) ((forestAt? tops i path).map (·.2)) := by
  induction read generalizing i with
  | nil => exact .none
  | cons first _ ih =>
    cases i with
    | zero => exact first.at? path
    | succ i =>
      rw [forestAt?, Option.map_map]
      exact ih i

namespace Workspace

variable {ws : Workspace} {tops : List StackSpec} {n : Nat}

theorem CarriesAll.tidy (carries : ws.CarriesAll n tops) : ∀ top ∈ tops, top.Tidy ∧ top.head?.isSome := by
  induction tops generalizing n with
  | nil => simp
  | cons top rest ih =>
    obtain ⟨proper, here, _, others⟩ := carries
    intro other member
    rcases List.mem_cons.mp member with rfl | later
    · exact ⟨here.tidy, proper⟩
    · exact ih others other later

theorem target?_of_untouched {b : Nat} (free : ∀ c ∈ (ws.block b).plugs, (ws.connection c).target = none) :
    ws.isInline b = false ∧ ws.parent? b = none := by
  have output : ws.target? (ws.block b).output = none :=
    target?_of_free fun c point => free c (by simp [Block.plugs, point])
  have previous : ws.target? (ws.block b).previous = none :=
    target?_of_free fun c point => free c (by simp [Block.plugs, point])
  rw [parent?, isInline, isLinked, output, previous]
  exact ⟨rfl, rfl⟩

/-- At every place of the stacks the workspace carries what is there. -/
theorem CarriesAll.at? (carries : ws.CarriesAll n tops) {i k : Nat} {path : List Turn} {found : StackSpec}
    (reached : forestAt? tops i path = some (k, found)) :
    found.head?.isSome ∧ ws.Carries (ws.isInline (n + k)) (n + k) found := by
  induction tops generalizing n i k with
  | nil => cases reached
  | cons top rest ih =>
    obtain ⟨proper, here, free, others⟩ := carries
    cases i with
    | zero =>
      obtain ⟨foundProper, below, _⟩ := here.at? (target?_of_untouched free).1 proper reached
      exact ⟨foundProper, below⟩
    | succ i =>
      obtain ⟨⟨m, _⟩, below, shape⟩ := Option.map_eq_some_iff.mp reached
      cases shape
      rw [← Nat.add_assoc]
      exact ih others below

/-- Of the blocks of several stacks only the heads hang on no other block. -/
theorem CarriesAll.filter_tops (carries : ws.CarriesAll n tops) :
    (List.range' n (forestSize tops)).filter (fun b => (ws.parent? b).isNone) = starts n tops := by
  induction tops generalizing n with
  | nil => rfl
  | cons top rest ih =>
    obtain ⟨proper, here, free, others⟩ := carries
    have positive := Stack.size_pos.mpr proper
    have inside : (List.range' (n + 1) (top.size - 1)).filter (fun b => (ws.parent? b).isNone) = [] := by
      refine List.filter_eq_nil_iff.mpr ?_
      intro b member
      rw [List.mem_range'_1] at member
      obtain ⟨path, found, reached⟩ := Stack.exists_at? here.tidy (show b - n < top.size by omega)
      obtain ⟨_, _, parent⟩ := here.at? (target?_of_untouched free).1 proper reached
      have moved : path ≠ [] := by
        rintro rfl
        have := (Prod.mk.inj (Option.some.inj reached)).1
        omega
      have := parent moved
      rw [Nat.add_sub_cancel' (by omega)] at this
      simp [Option.isSome_iff_ne_none.mp this]
    have split : List.range' n (forestSize (top :: rest)) =
        n :: List.range' (n + 1) (top.size - 1) ++ List.range' (n + top.size) (forestSize rest) := by
      rw [forestSize, ← List.range'_append_1, ← List.range'_succ]
      congr 2
      omega
    have head : (ws.parent? n).isNone := by rw [(target?_of_untouched free).2]; rfl
    rw [split, List.filter_append, List.filter_cons, if_pos head, inside, ih others]
    rfl

/-- The lists of the heads and all below them end, and hold every block once. -/
theorem CarriesAll.descendants (carries : ws.CarriesAll n tops) {fuel : Nat}
    (enough : forestSize tops ≤ fuel) :
    ∃ lists, (starts n tops).mapM (ws.descendantsWithin fuel) = some lists ∧
      lists.flatten.Perm (List.range' n (forestSize tops)) := by
  induction tops generalizing n with
  | nil => exact ⟨[], rfl, .refl _⟩
  | cons top rest ih =>
    obtain ⟨proper, here, _, others⟩ := carries
    rw [forestSize] at enough
    obtain ⟨list, first, perm⟩ := here.descendantsWithin proper (show top.size ≤ fuel by omega)
    obtain ⟨lists, second, perms⟩ := ih others (show forestSize rest ≤ fuel by omega)
    refine ⟨list :: lists, ?_, ?_⟩
    · rw [starts, List.mapM_cons, first, second]
      rfl
    · rw [forestSize, ← List.range'_append_1, List.flatten_cons]
      exact perm.append perms

theorem forestAt?_top {α : Type} {tops : List (Stack α String)} {i : Nat} (below : i < tops.length) :
    ∃ k found, forestAt? tops i [] = some (k, found) := by
  induction tops generalizing i with
  | nil => cases below
  | cons top rest ih =>
    cases i with
    | zero => exact ⟨0, top, rfl⟩
    | succ i =>
      obtain ⟨k, found, reached⟩ := ih (Nat.lt_of_succ_lt_succ below)
      exact ⟨top.size + k, found, by rw [forestAt?, reached]; rfl⟩

theorem starts_eq (tops : List StackSpec) (n : Nat) :
    starts n tops = (List.range tops.length).map fun i => n + (BlockPlace.mk i []).number tops := by
  induction tops generalizing n with
  | nil => rfl
  | cons top rest ih =>
    rw [starts, List.length_cons, List.range_succ_eq_map, List.map_cons, List.map_map, ih]
    congr 1
    refine List.map_congr_left ?_
    intro i member
    obtain ⟨k, found, reached⟩ := forestAt?_top (List.mem_range.mp member)
    simp [BlockPlace.number, forestAt?, reached, Nat.add_assoc]

end Workspace

/-- A block tells what the value of a block tells. Its fields lie over the defaults of its type. -/
structure Block.Tells (block : Block) (object : Json) : Prop where
  type : object.member? "type" = some (.text block.type)
  fields : block.fields = (defaultFields block.type).update (object.entries "fields")
  mutation : block.mutation = Table.ofEntries (object.entries "mutation")
  comment : block.comment = commentOf ((object.member? "comment").bind Json.asText?)
  disabled : block.disabled = ((object.member? "disabled").getD .null).isTrue
  id : block.ownId = ((object.member? "id").bind Json.asText?).filter (· ≠ "")
  x : block.x = (object.member? "x").getD (.int 0)
  y : block.y = (object.member? "y").getD (.int 0)

/-- A workspace is the forest of the blocks in a document, when these are numbered: no block is lost, doubled
or hung elsewhere, and every walk down comes to an end. -/
structure Workspace.IsForest (ws : Workspace) (data : Json) (number : BlockPlace → Nat) : Prop where
  bijective : Set.BijOn number {place | (data.block? place).isSome} {b | b ∈ ws.members}
  once : ws.members.Nodup
  content : ∀ place object, data.block? place = some object → (ws.block (number place)).Tells object
  inputs : ∀ place, (data.block? place).isSome → ∀ name b,
    ws.inputTarget? (number place) name = some b ↔
      (data.block? (place.go (.input name))).isSome ∧ b = number (place.go (.input name))
  next : ∀ place, (data.block? place).isSome → ∀ b,
    ws.next? (number place) = some b ↔
      (data.block? (place.go .next)).isSome ∧ b = number (place.go .next)
  tops : ws.topBlocks = (List.range data.tops.length).map fun i => number ⟨i, []⟩
  descendants : ∃ lists, ws.topBlocks.mapM ws.descendants? = some lists ∧ lists.flatten.Perm ws.members
  acyclic : ∀ b, ¬ Relation.TransGen (fun a c => c ∈ ws.children a) b b
  walks : ∀ b ∈ ws.members, (ws.stack? (some b)).isSome ∧ (ws.descendants? b).isSome

theorem tells_of_reads {strict asValue : Bool} {object : Json} {block : Block} {spec : BlockSpec}
    {inputs : Rows BlockSpec String} (reads : spec.Reads strict object.members)
    (renders : block.Renders spec asValue inputs) : block.Tells object := by
  have content := renders.content
  have type : block.type = spec.type := by
    have same := congrArg BlockContent.type content
    exact same
  constructor
  · rw [type]
    exact reads.type
  · rw [type]
    exact (congrArg BlockContent.fields content).trans (by rw [BlockSpec.content, reads.fields]; rfl)
  · exact (congrArg BlockContent.mutation content).trans (by rw [BlockSpec.content, reads.mutation]; rfl)
  · exact (congrArg BlockContent.comment content).trans reads.comment
  · exact (congrArg BlockContent.disabled content).trans reads.disabled
  · exact renders.id.trans (by rw [reads.ownId]; rfl)
  · exact renders.position.1.trans reads.x
  · exact renders.position.2.trans reads.y

namespace Workspace

variable {ws : Workspace} {data : Json} {strict : Bool} {tops : List StackSpec}

/-- A place of a document is a place of its stacks. -/
theorem exists_at_place (read : List.Forall₂ (Json.ReadAs strict) data.tops tops) {place : BlockPlace}
    {object : Json} (there : data.block? place = some object) :
    ∃ found, forestAt? tops place.top place.path = some (place.number tops, found) ∧
    object.ReadAs strict found := by
  have related := readAs_forestAt? read place.top place.path
  rw [← Json.block?, there] at related
  cases reached : forestAt? tops place.top place.path with
  | none =>
    rw [reached] at related
    cases related
  | some pair =>
    rw [reached] at related
    cases related with
    | some readFound => exact ⟨pair.2, by rw [BlockPlace.number, reached]; rfl, readFound⟩

theorem isSome_block? (read : List.Forall₂ (Json.ReadAs strict) data.tops tops) (place : BlockPlace) :
    (data.block? place).isSome ↔ (forestAt? tops place.top place.path).isSome := by
  have related := readAs_forestAt? read place.top place.path
  rw [← Json.block?] at related
  generalize data.block? place = there at related
  cases reached : forestAt? tops place.top place.path with
  | none =>
    rw [reached] at related
    cases related
    simp
  | some pair =>
    rw [reached] at related
    cases related
    simp

/-- Where a turn leads from a place is the block of the place that the turn leads to. -/
theorem target_at_place (read : List.Forall₂ (Json.ReadAs strict) data.tops tops) {place : BlockPlace}
    {turn : Turn} {k : Nat} {found : StackSpec}
    (reached : forestAt? tops place.top place.path = some (k, found)) (b : Nat) :
    ((found.turn? turn).map fun child => k + child.1) = some b ↔
      (data.block? (place.go turn)).isSome ∧ b = (place.go turn).number tops := by
  have next : forestAt? tops (place.go turn).top (place.go turn).path =
      (found.turn? turn).map fun child => (k + child.1, child.2) := by
    show forestAt? tops place.top (place.path ++ [turn]) = _
    rw [forestAt?_append, reached]
    rfl
  rw [isSome_block? read, BlockPlace.number, next]
  cases found.turn? turn with
  | none => simp
  | some child =>
    simp only [Option.map_some, Option.some.injEq, Option.isSome_some, true_and, Option.getD_some]
    exact eq_comm

/-- Down from a block the numbers grow. -/
theorem lt_of_below
    (carried : ∀ b < ws.blocks.size, ∃ found : StackSpec, found.head?.isSome ∧
    ws.Carries (ws.isInline b) b found)
    {b c : Nat}
    (below : Relation.TransGen (fun a c => c ∈ ws.children a) b c) : b < c := by
  have step : ∀ {a c}, c ∈ ws.children a → a < c := by
    intro a c child
    by_cases bound : a < ws.blocks.size
    · obtain ⟨found, proper, carries⟩ := carried a bound
      rw [carries.children proper] at child
      obtain ⟨turn, _, there⟩ := List.mem_filterMap.mp child
      obtain ⟨⟨k, _⟩, turned, rfl⟩ := Option.map_eq_some_iff.mp there
      have := (Stack.turn?_part carries.tidy turned).1
      omega
    · have absent : ws.block a = default := by
        rw [Workspace.block, Array.getElem?_eq_none (Nat.not_lt.mp bound)]
        rfl
      have alone : ws.children a = [] := by
        rw [Workspace.children, Workspace.next?, absent]
        rfl
      rw [alone] at child
      cases child
  induction below with
  | single child => exact step child
  | tail _ child ih => exact Nat.lt_trans ih (step child)

end Workspace

/-- What is loaded from a value is the forest of the blocks in the value. -/
theorem loadWorkspace_isForest {strict : Bool} {oneBased : Option Bool} {data : Json} {ws : Workspace}
    (loaded : loadWorkspace strict oneBased data = .ok ws) : ∃ number, ws.IsForest data number := by
  obtain ⟨tops, read, carries, size, members⟩ := carriesAll_loadWorkspace loaded
  have members : ws.members = List.range' 0 (forestSize tops) := by rw [members, List.range_eq_range']
  have size : ws.blocks.size = forestSize tops := size
  have tidy := carries.tidy
  have topBlocks : ws.topBlocks = starts 0 tops := by rw [Workspace.topBlocks, members, carries.filter_tops]
  -- Every member is at a place, and the workspace carries what is there.
  have carried : ∀ b ∈ ws.members, ∃ i path found, forestAt? tops i path = some (b, found) ∧
      found.head?.isSome ∧ found.size ≤ ws.blocks.size ∧ ws.Carries (ws.isInline b) b found := by
    intro b member
    rw [members, List.mem_range'_1] at member
    obtain ⟨i, path, found, reached⟩ := exists_forestAt? tidy (show b < forestSize tops by omega)
    obtain ⟨proper, carries⟩ := carries.at? reached
    have := (forestAt?_part tidy reached).1
    rw [Nat.zero_add] at carries
    exact ⟨i, path, found, reached, proper, by omega, carries⟩
  have at_place : ∀ place object, data.block? place = some object → ∃ found,
      forestAt? tops place.top place.path = some (place.number tops, found) ∧ object.ReadAs strict found ∧
        found.head?.isSome ∧ ws.Carries (ws.isInline (place.number tops)) (place.number tops) found := by
    intro place object there
    obtain ⟨found, reached, readFound⟩ := Workspace.exists_at_place read there
    obtain ⟨proper, carries⟩ := carries.at? reached
    rw [Nat.zero_add] at carries
    exact ⟨found, reached, readFound, proper, carries⟩
  refine ⟨fun place => place.number tops, ?_, ?_, ?_, ?_, ?_, ?_, ?_, ?_, ?_⟩
  · refine ⟨?_, ?_, ?_⟩
    · intro place there
      obtain ⟨object, there⟩ := Option.isSome_iff_exists.mp there
      obtain ⟨found, reached, _, proper, _⟩ := at_place place object there
      have := (forestAt?_part tidy reached).1
      have := Stack.size_pos.mpr proper
      show place.number tops ∈ ws.members
      rw [members, List.mem_range'_1]
      omega
    · intro place there other otherThere same
      obtain ⟨object, there⟩ := Option.isSome_iff_exists.mp there
      obtain ⟨object', otherThere⟩ := Option.isSome_iff_exists.mp otherThere
      obtain ⟨found, reached, _⟩ := at_place place object there
      obtain ⟨found', reached', _⟩ := at_place other object' otherThere
      have same : place.number tops = other.number tops := same
      rw [same] at reached
      obtain ⟨top, path⟩ := forestAt?_inj tidy reached reached'
      cases place
      cases other
      rw [BlockPlace.mk.injEq]
      exact ⟨top, path⟩
    · intro b member
      obtain ⟨i, path, found, reached, _⟩ := carried b member
      refine ⟨⟨i, path⟩, ?_, ?_⟩
      · show (data.block? ⟨i, path⟩).isSome
        rw [Workspace.isSome_block? read, reached]
        rfl
      · show BlockPlace.number ⟨i, path⟩ tops = b
        rw [BlockPlace.number, reached]
        rfl
  · rw [members]
    exact List.nodup_range'
  · intro place object there
    obtain ⟨found, _, readFound, _, carries⟩ := at_place place object there
    obtain ⟨spec, inputs, next, rfl, reads, _⟩ := readFound.block
    exact tells_of_reads reads carries.2.1
  · intro place there name b
    obtain ⟨object, there⟩ := Option.isSome_iff_exists.mp there
    obtain ⟨found, reached, _, proper, carries⟩ := at_place place object there
    rw [carries.inputTarget? proper name]
    exact Workspace.target_at_place read reached b
  · intro place there b
    obtain ⟨object, there⟩ := Option.isSome_iff_exists.mp there
    obtain ⟨found, reached, _, proper, carries⟩ := at_place place object there
    rw [carries.next? proper]
    exact Workspace.target_at_place read reached b
  · rw [topBlocks, Workspace.starts_eq, read.length_eq]
    simp
  · rw [topBlocks, members]
    exact carries.descendants (Nat.le_of_eq size.symm)
  · intro b below
    have held : ∀ b < ws.blocks.size, ∃ found : StackSpec,
        found.head?.isSome ∧ ws.Carries (ws.isInline b) b found := by
      intro b bound
      have member : b ∈ ws.members := by
        rw [members, List.mem_range'_1]
        omega
      obtain ⟨_, _, found, _, proper, _, carries⟩ := carried b member
      exact ⟨found, proper, carries⟩
    exact absurd (Workspace.lt_of_below held below) (Nat.lt_irrefl b)
  · intro b member
    obtain ⟨_, _, found, _, proper, enough, carries⟩ := carried b member
    obtain ⟨shown, shows, _⟩ := carries.stackWithin proper rfl enough
    obtain ⟨list, lists, _⟩ := carries.descendantsWithin proper enough
    rw [Workspace.stack?, Workspace.descendants?, shows, lists]
    exact ⟨rfl, rfl⟩

/-- A loop whose body prints a number, and a block of unknown type that another follows. -/
theorem loadWorkspace_isForest_loop :
    let printed := Json.object [("type", .text "text_print"), ("comment", .text ""),
      ("inputs",
      .object [("TEXT", .object [("type", .text "math_number"), ("fields", .object [("NUM", .int 7)])])])]
    let loop := Json.object [("type", .text "controls_repeat_ext"), ("x", .int 4),
      ("inputs", .object [("DO", printed), ("TIMES", .object [("type", .text "math_number")])])]
    let data := Json.object [("name", .text "loops"), ("blocks", .list
      [loop, .object [("type", .text "motor_start"), ("disabled", .bool true), ("next", printed)]])]
    ∃ ws, loadWorkspace false none data = .ok ws ∧ ∃ number, ws.IsForest data number := by
  intro printed loop data
  have loads : (loadWorkspace false none data).toOption.isSome := by decide +kernel
  cases loaded : loadWorkspace false none data with
  | error error =>
    rw [loaded] at loads
    cases loads
  | ok ws => exact ⟨ws, rfl, loadWorkspace_isForest loaded⟩

end BlockCompiler

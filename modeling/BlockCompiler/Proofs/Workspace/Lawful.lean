import BlockCompiler.Proofs.Workspace.Operations

/-!
Connections are linked in lawful pairs, wherever operations lead.
-/

namespace BlockCompiler

/-- Whether connections of a kind stand at the blocks that are attached, and not at those that they are
attached to. -/
def ConnectionKind.isPlug : ConnectionKind → Bool
  | .outputValue | .previousStatement => true
  | .inputValue | .nextStatement => false

theorem ConnectionKind.isPlug_opposite (kind : ConnectionKind) : kind.opposite.isPlug = !kind.isPlug := by
  cases kind <;> rfl

/-- The connections by which other blocks are attached to a block. -/
def Block.sockets (block : Block) : List Nat := block.next.toList ++ block.rows.filterMap (·.connection)

namespace Workspace

variable {ws t : Workspace} {b c d : Nat}

/-- A connection belongs to a block, as a plug or as a socket. -/
structure Owns (ws : Workspace) (b c : Nat) (isPlug : Bool) : Prop where
  bound : c < ws.connections.size
  owner : (ws.connection c).owner = b
  kind : (ws.connection c).kind.isPlug = isPlug

/-- Two connections are linked as the laws of linking ask for. -/
structure Pairs (ws : Workspace) (c d : Nat) : Prop where
  back : (ws.connection d).target = some c
  kind : (ws.connection d).kind = (ws.connection c).kind.opposite
  owner : (ws.connection d).owner ≠ (ws.connection c).owner
  check : (ws.connection c).check.meets (ws.connection d).check

/-- Blocks own their connections, and none has both an output and a previous connection. -/
structure Owned (ws : Workspace) : Prop where
  plugs : ∀ b, ∀ c ∈ (ws.block b).plugs, ws.Owns b c true
  sockets : ∀ b, ∀ c ∈ (ws.block b).sockets, ws.Owns b c false
  owners : ∀ c < ws.connections.size, (ws.connection c).owner < ws.blocks.size
  onePlug : ∀ b, (ws.block b).output = none ∨ (ws.block b).previous = none

/-- Blocks own their connections, and these are linked in lawful pairs. -/
structure Lawful (ws : Workspace) : Prop extends ws.Owned where
  links : ∀ c d, (ws.connection c).target = some d → ws.Pairs c d

theorem Pairs.symm (pair : ws.Pairs c d) (linked : (ws.connection c).target = some d) : ws.Pairs d c where
  back := linked
  kind := by rw [pair.kind, ConnectionKind.opposite_opposite]
  owner := pair.owner.symm
  check := TypeCheck.meets_comm .. ▸ pair.check

theorem block_of_le (outside : ws.blocks.size ≤ b) : ws.block b = default := by
  rw [block, Array.getElem?_eq_none outside, Option.getD_none]

theorem connection_of_le (outside : ws.connections.size ≤ c) : ws.connection c = default := by
  rw [connection, Array.getElem?_eq_none outside, Option.getD_none]

/-- A connection that is linked is there. -/
theorem lt_of_target (linked : (ws.connection c).target = some d) : c < ws.connections.size := by
  by_contra outside
  rw [connection_of_le (Nat.le_of_not_lt outside)] at linked
  cases linked

theorem block_change_of_ne {f : Block → Block} {n : Nat} (other : n ≠ b) :
    (ws.change b f).block n = ws.block n := by
  rw [block, change, Array.getElem?_modify, if_neg (Ne.symm other), block]

theorem Owns.change {isPlug : Bool} {n : Nat} {f : Block → Block} (owns : ws.Owns b c isPlug) :
    (ws.change n f).Owns b c isPlug :=
  ⟨owns.bound, owns.owner, owns.kind⟩

theorem Owns.withConnection {isPlug : Bool} {owner : Nat} {kind : ConnectionKind} {check : TypeCheck}
    (owns : ws.Owns b c isPlug) :
    (ws.withConnection owner kind check).Owns b c isPlug := by
  have same := @connection_withConnection_lt _ _ owner kind check owns.bound
  refine ⟨?_, same ▸ owns.owner, same ▸ owns.kind⟩
  rw [Workspace.withConnection, Array.size_push]
  exact Nat.lt_succ_of_lt owns.bound

theorem owns_withConnection (ws : Workspace) (b : Nat) (kind : ConnectionKind) (check : TypeCheck) :
    (ws.withConnection b kind check).Owns b ws.connections.size kind.isPlug := by
  refine ⟨?_, ?_, ?_⟩
  · rw [withConnection, Array.size_push]
    exact Nat.lt_succ_self _
  · rw [connection_withConnection_size]
  · rw [connection_withConnection_size]

/-- A connection that is linked otherwise is the same in all else. -/
theorem retarget_same (below : c < ws.connections.size) (target : Option Nat) (e : Nat) :
    ((ws.retarget c target).connection e).owner = (ws.connection e).owner ∧
      ((ws.retarget c target).connection e).kind = (ws.connection e).kind ∧
      ((ws.retarget c target).connection e).check = (ws.connection e).check := by
  rw [connection_retarget target below]
  split_ifs with same
  · subst same
    exact ⟨rfl, rfl, rfl⟩
  · exact ⟨rfl, rfl, rfl⟩

theorem size_retarget (ws : Workspace) (c : Nat) (target : Option Nat) :
    (ws.retarget c target).connections.size = ws.connections.size := by
  rw [retarget, Array.size_modify]

theorem Owned.retarget (owned : ws.Owned) (below : c < ws.connections.size) (target : Option Nat) :
    (ws.retarget c target).Owned := by
  have moved : ∀ {n e isPlug}, ws.Owns n e isPlug → (ws.retarget c target).Owns n e isPlug := by
    intro n e isPlug owns
    obtain ⟨owner, kind, _⟩ := retarget_same below target e
    exact ⟨(size_retarget ..).symm ▸ owns.bound, owner ▸ owns.owner, kind ▸ owns.kind⟩
  refine ⟨fun n e member => moved (owned.plugs n e member),
    fun n e member => moved (owned.sockets n e member),
    fun e bound => ?_, owned.onePlug⟩
  rw [(retarget_same below target e).1]
  exact owned.owners e (size_retarget ws c target ▸ bound)

/-- Pairs that stay linked when one connection after another is linked otherwise. -/
theorem Pairs.retarget {e f : Nat} {target : Option Nat} (pair : ws.Pairs e f)
    (below : c < ws.connections.size) (other : f ≠ c) :
    (ws.retarget c target).Pairs e f := by
  obtain ⟨owner, kind, check⟩ := retarget_same below target e
  obtain ⟨owner', kind', check'⟩ := retarget_same below target f
  refine ⟨?_, ?_, ?_, ?_⟩
  · rw [connection_retarget target below, if_neg other]
    exact pair.back
  · rw [kind, kind']
    exact pair.kind
  · rw [owner, owner']
    exact pair.owner
  · rw [check, check']
    exact pair.check

namespace Lawful

theorem start (name : String) (oneBased : Bool) : Lawful { name, oneBased } where
  plugs b c member := by cases member
  sockets b c member := by cases member
  owners c bound := by cases bound
  onePlug b := .inl rfl
  links c d linked := by cases linked

/-- A change of a block that gives it no connections but its own. -/
theorem change (lawful : ws.Lawful) {f : Block → Block}
    (plugs : ∀ c ∈ (f (ws.block b)).plugs, ws.Owns b c true)
    (sockets : ∀ c ∈ (f (ws.block b)).sockets, ws.Owns b c false)
    (onePlug : (f (ws.block b)).output = none ∨ (f (ws.block b)).previous = none) :
    (ws.change b f).Lawful := by
  have cases : ∀ n, (ws.change b f).block n = ws.block n ∨ n = b ∧
      (ws.change b f).block n = f (ws.block n) := by
    intro n
    by_cases same : n = b
    · subst same
      by_cases bound : n < ws.blocks.size
      · exact .inr ⟨rfl, block_change bound f⟩
      · refine .inl ?_
        have outside := Nat.le_of_not_lt bound
        rw [block_of_le outside, block_of_le]
        rwa [Workspace.change, Array.size_modify]
    · exact .inl (block_change_of_ne same)
  refine ⟨⟨fun n c member => Owns.change ?_, fun n c member => Owns.change ?_,
    fun c bound => ?_, fun n => ?_⟩,
    fun c d linked => ?_⟩
  · rcases cases n with old | ⟨rfl, new⟩
    · exact lawful.plugs n c (old ▸ member)
    · exact plugs c (new ▸ member)
  · rcases cases n with old | ⟨rfl, new⟩
    · exact lawful.sockets n c (old ▸ member)
    · exact sockets c (new ▸ member)
  · rw [Workspace.change, Array.size_modify]
    exact lawful.owners c bound
  · rcases cases n with old | ⟨rfl, new⟩
    · exact old ▸ lawful.onePlug n
    · exact new ▸ onePlug
  · obtain ⟨back, kind, owner, check⟩ := lawful.links c d linked
    exact ⟨back, kind, owner, check⟩

/-- A new connection is not linked. -/
theorem withConnection (lawful : ws.Lawful) (here : b < ws.blocks.size) (kind : ConnectionKind)
    (check : TypeCheck) :
    (ws.withConnection b kind check).Lawful := by
  have newest : ∀ c < (ws.withConnection b kind check).connections.size, c < ws.connections.size ∨
      c = ws.connections.size := by
    intro c bound
    rw [Workspace.withConnection, Array.size_push] at bound
    omega
  refine ⟨⟨fun n c member => (lawful.plugs n c member).withConnection,
    fun n c member => (lawful.sockets n c member).withConnection,
    fun c bound => ?_, lawful.onePlug⟩, fun c d linked => ?_⟩
  · rcases newest c bound with old | rfl
    · rw [connection_withConnection_lt old]
      exact lawful.owners c old
    · rw [connection_withConnection_size]
      exact here
  · rcases newest c (lt_of_target linked) with old | rfl
    · rw [connection_withConnection_lt old] at linked
      have pair := lawful.links c d linked
      refine ⟨?_, ?_, ?_, ?_⟩ <;> rw [connection_withConnection_lt (lt_of_target pair.back)]
      · exact pair.back
      all_goals rw [connection_withConnection_lt old]
      · exact pair.kind
      · exact pair.owner
      · exact pair.check
    · rw [connection_withConnection_size] at linked
      cases linked

/-- It does not matter which blocks are members. -/
theorem withMembers (lawful : ws.Lawful) (members : List Nat) : Lawful { ws with members } := by
  refine ⟨⟨fun n c member => ?_, fun n c member => ?_, lawful.owners, lawful.onePlug⟩, fun c d linked => ?_⟩
  · obtain ⟨bound, owner, kind⟩ := lawful.plugs n c member
    exact ⟨bound, owner, kind⟩
  · obtain ⟨bound, owner, kind⟩ := lawful.sockets n c member
    exact ⟨bound, owner, kind⟩
  · obtain ⟨back, kind, owner, check⟩ := lawful.links c d linked
    exact ⟨back, kind, owner, check⟩

/-- A new block has no connections. -/
theorem push (lawful : ws.Lawful) (type : String) (ownId : Option String) :
    Lawful { ws with blocks := ws.blocks.push { type, ownId } } := by
  have cases : ∀ n, Workspace.block { ws with blocks := ws.blocks.push { type, ownId } } n = ws.block n ∨
      Workspace.block { ws with blocks := ws.blocks.push { type, ownId } } n = { type, ownId } := by
    intro n
    rw [Workspace.block, Array.getElem?_push, Workspace.block]
    split
    · exact .inr rfl
    · exact .inl rfl
  refine ⟨⟨fun n c member => ?_, fun n c member => ?_, fun c bound => ?_, fun n => ?_⟩, fun c d linked => ?_⟩
  · have owns : ws.Owns n c true := by
      rcases cases n with old | new
      · exact lawful.plugs n c (old ▸ member)
      · rw [new] at member
        cases member
    exact ⟨owns.bound, owns.owner, owns.kind⟩
  · have owns : ws.Owns n c false := by
      rcases cases n with old | new
      · exact lawful.sockets n c (old ▸ member)
      · rw [new] at member
        cases member
    exact ⟨owns.bound, owns.owner, owns.kind⟩
  · rw [Array.size_push]
    exact Nat.lt_succ_of_lt (lawful.owners c bound)
  · rcases cases n with old | new
    · exact old ▸ lawful.onePlug n
    · exact .inl (congrArg Block.output new)
  · obtain ⟨back, kind, owner, check⟩ := lawful.links c d linked
    exact ⟨back, kind, owner, check⟩

/-- Two free connections that fit to each other may be linked. -/
theorem link (lawful : ws.Lawful) (kind : (ws.connection d).kind = (ws.connection c).kind.opposite)
    (owner : (ws.connection d).owner ≠ (ws.connection c).owner)
    (check : (ws.connection c).check.meets (ws.connection d).check) (free : (ws.connection c).target = none)
    (free' : (ws.connection d).target = none) (bound : c < ws.connections.size)
    (bound' : d < ws.connections.size) :
    ((ws.retarget c (some d)).retarget d (some c)).Lawful := by
  have below := (size_retarget ws c (some d)).symm ▸ bound'
  have differ : c ≠ d := fun same => owner (same ▸ rfl)
  obtain ⟨_, forth, back⟩ := grown_link ⟨bound, bound'⟩ differ
  have pair : ((ws.retarget c (some d)).retarget d (some c)).Pairs c d := by
    obtain ⟨owner₁, kind₁, check₁⟩ := retarget_same below (some c) c
    obtain ⟨owner₂, kind₂, check₂⟩ := retarget_same below (some c) d
    obtain ⟨owner₃, kind₃, check₃⟩ := retarget_same bound (some d) c
    obtain ⟨owner₄, kind₄, check₄⟩ := retarget_same bound (some d) d
    exact ⟨back, by rw [kind₁, kind₂, kind₃, kind₄, kind], by rwa [owner₁, owner₂, owner₃, owner₄],
      by rwa [check₁, check₂, check₃, check₄]⟩
  refine ⟨(lawful.toOwned.retarget bound _).retarget below _, fun e f linked => ?_⟩
  by_cases first : e = c
  · subst first
    obtain rfl := Option.some.inj (forth.symm.trans linked)
    exact pair
  by_cases second : e = d
  · subst second
    obtain rfl := Option.some.inj (back.symm.trans linked)
    exact pair.symm forth
  -- All others were linked before, and not with these two, which were free.
  rw [connection_retarget _ below, if_neg second, connection_retarget _ bound, if_neg first] at linked
  have before := lawful.links e f linked
  refine (before.retarget bound ?_).retarget below ?_
  · rintro rfl
    rw [before.back] at free
    cases free
  · rintro rfl
    rw [before.back] at free'
    cases free'

/-- Two connections that are linked may be unlinked. -/
theorem unlink (lawful : ws.Lawful) (linked : (ws.connection c).target = some d) :
    ((ws.retarget d none).retarget c none).Lawful := by
  have pair := lawful.links c d linked
  have bound := lt_of_target pair.back
  have below := (size_retarget ws d none).symm ▸ lt_of_target linked
  refine ⟨(lawful.toOwned.retarget bound _).retarget below _, fun e f others => ?_⟩
  rw [connection_retarget _ below] at others
  split_ifs at others with first
  rw [connection_retarget _ bound] at others
  split_ifs at others with second
  have before := lawful.links e f others
  refine (before.retarget bound ?_).retarget below ?_
  · rintro rfl
    exact first (Option.some.inj (before.back.symm.trans pair.back))
  · rintro rfl
    exact second (Option.some.inj (before.back.symm.trans linked))

end Lawful

/-- A lawful workspace with a block of a number. -/
structure LawfulWith (b : Nat) (ws : Workspace) : Prop extends ws.Lawful where
  here : b < ws.blocks.size

namespace LawfulWith

theorem change (lawful : ws.LawfulWith b) {f : Block → Block}
    (plugs : ∀ c ∈ (f (ws.block b)).plugs, ws.Owns b c true)
    (sockets : ∀ c ∈ (f (ws.block b)).sockets, ws.Owns b c false)
    (onePlug : (f (ws.block b)).output = none ∨ (f (ws.block b)).previous = none) :
    (ws.change b f).LawfulWith b where
  toLawful := lawful.toLawful.change plugs sockets onePlug
  here := by
    rw [Workspace.change, Array.size_modify]
    exact lawful.here

/-- A change of what a block says about itself. -/
theorem say (lawful : ws.LawfulWith b) {f : Block → Block}
    (plugs : (f (ws.block b)).plugs = (ws.block b).plugs)
    (sockets : (f (ws.block b)).sockets = (ws.block b).sockets)
    (onePlug : (f (ws.block b)).output = none ∨ (f (ws.block b)).previous = none) :
    (ws.change b f).LawfulWith b :=
  lawful.change (plugs ▸ lawful.plugs b) (sockets ▸ lawful.sockets b) onePlug

theorem withConnection (lawful : ws.LawfulWith b) (kind : ConnectionKind) (check : TypeCheck) :
    (ws.withConnection b kind check).LawfulWith b :=
  ⟨lawful.toLawful.withConnection lawful.here kind check, lawful.here⟩

end LawfulWith

end Workspace

namespace Edit

open Workspace

variable {ws t : Workspace} {b : Nat} {u : Unit}

theorem lawful_addRow (lawful : ws.LawfulWith b) {name : String} {kind : RowKind} {check : TypeCheck}
    (added : Yields (addRow b name kind check) ws u t) : t.LawfulWith b := by
  obtain ⟨_, rfl⟩ := yields_addRow.mp added
  have sockets : ∀ row : Row, ({ ws.block b with rows := (ws.block b).rows ++ [row] } : Block).sockets =
      (ws.block b).sockets ++ row.connection.toList := by
    rintro ⟨kind, name, connection⟩
    cases connection <;> simp [Block.sockets]
  unfold withRow
  cases point : kind.connection? with
  | none =>
    refine lawful.change (lawful.plugs b) ?_ (lawful.onePlug b)
    rw [sockets]
    simpa using lawful.sockets b
  | some socket =>
    have before := lawful.withConnection socket check
    refine before.change (before.plugs b) ?_ (lawful.onePlug b)
    have kind : socket.isPlug = false := by cases kind <;> cases point <;> rfl
    show ∀ c ∈ ({ ws.block b with rows := (ws.block b).rows ++ [_] } : Block).sockets, _
    rw [sockets]
    refine List.forall_mem_append.mpr ⟨before.sockets b, ?_⟩
    simpa [kind] using owns_withConnection ws b socket check

theorem lawful_setOutput (lawful : ws.LawfulWith b) {check : TypeCheck}
    (set : Yields (setOutput b check) ws u t) :
    t.LawfulWith b := by
  obtain ⟨free, rfl⟩ := yields_setOutput.mp set
  have before := lawful.withConnection .outputValue check
  refine before.change ?_ (before.sockets b) (.inr free)
  have noPrevious : ((ws.withConnection b .outputValue check).block b).previous = none := free
  simpa [Block.plugs, noPrevious, ConnectionKind.isPlug] using owns_withConnection ws b .outputValue check

theorem lawful_setPrevious (lawful : ws.LawfulWith b) {check : TypeCheck}
    (set : Yields (setPrevious b check) ws u t) :
    t.LawfulWith b := by
  obtain ⟨free, rfl⟩ := yields_setPrevious.mp set
  have before := lawful.withConnection .previousStatement check
  refine before.change ?_ (before.sockets b) (.inl free)
  have noOutput : ((ws.withConnection b .previousStatement check).block b).output = none := free
  simpa [Block.plugs, noOutput, ConnectionKind.isPlug] using owns_withConnection ws b .previousStatement check

theorem lawful_setNext (lawful : ws.LawfulWith b) {check : TypeCheck}
    (set : Yields (setNext b check) ws u t) :
    t.LawfulWith b := by
  obtain rfl := yields_setNext.mp set
  have before := lawful.withConnection .nextStatement check
  refine before.change (before.plugs b) ?_ (lawful.onePlug b)
  refine List.forall_mem_append.mpr ⟨?_, fun c member => before.sockets b c (List.mem_append_right _ member)⟩
  simpa [ConnectionKind.isPlug] using owns_withConnection ws b .nextStatement check

theorem lawful_addRows (lawful : ws.LawfulWith b) {specs : List RowSpec}
    (added : Yields (addRows b specs) ws u t) :
    t.LawfulWith b := by
  induction specs generalizing ws with
  | nil =>
    obtain ⟨_, rfl⟩ := yields_pure.mp added
    exact lawful
  | cons spec rest ih =>
    obtain ⟨_, next, first, others⟩ := yields_bind.mp added
    exact ih (lawful_addRow lawful first) others

theorem lawful_plugIn (lawful : ws.LawfulWith b) {plug : Plug} (plugged : Yields (plugIn b plug) ws u t) :
    t.LawfulWith b := by
  cases plug with
  | value check => exact lawful_setOutput lawful plugged
  | statement =>
    obtain ⟨_, next, first, second⟩ := yields_bind.mp plugged
    exact lawful_setNext (lawful_setPrevious lawful first) second
  | loose =>
    obtain ⟨_, rfl⟩ := yields_pure.mp plugged
    exact lawful

theorem lawful_applyShape (lawful : ws.LawfulWith b) (applied : Yields (applyShape b) ws u t) :
    t.LawfulWith b := by
  unfold applyShape at applied
  rw [yields_get_bind] at applied
  cases known : BlockKind.ofName? (ws.block b).type with
  | none => simp [known] at applied
  | some kind =>
    simp only [known] at applied
    obtain ⟨_, _, plugged, applied⟩ := yields_bind.mp applied
    obtain ⟨_, _, added, applied⟩ := yields_bind.mp applied
    obtain ⟨_, _, filled, applied⟩ := yields_bind.mp applied
    obtain rfl := yields_modifyBlock.mp filled
    have rows := lawful_addRows (lawful_plugIn lawful plugged) added
    have shaped := rows.say (f := fun block => { block with fields := block.fields.fill kind.shape.fields })
      rfl rfl (rows.onePlug b)
    cases has : kind.shape.family with
    | none =>
      simp only [has] at applied
      obtain ⟨_, rfl⟩ := yields_pure.mp applied
      exact shaped
    | some family =>
      simp only [has, yields_get_bind] at applied
      obtain ⟨_, _, added, applied⟩ := yields_bind.mp applied
      have grown := lawful_addRows shaped added
      split at applied
      · obtain ⟨_, rfl⟩ := yields_pure.mp applied
        exact grown
      · exact absurd applied yields_throw

theorem lawful_addMember (lawful : ws.Lawful) (added : Yields (addMember b) ws u t) : t.Lawful := by
  obtain ⟨_, _, rfl⟩ := yields_addMember.mp added
  exact lawful.withMembers _

theorem lawful_makeBlock (lawful : ws.Lawful) {type : String} {id : Option String}
    (made : Yields (makeBlock type id) ws b t) :
    t.LawfulWith b := by
  obtain ⟨rfl, rfl⟩ := yields_makeBlock.mp made
  refine ⟨lawful.push .., ?_⟩
  rw [Array.size_push]
  exact Nat.lt_succ_self _

theorem lawful_newBlock (lawful : ws.Lawful) {type : String} {id : Option String}
    {mutation fields : Table Json} (made : Yields (newBlock type id mutation fields) ws b t) : t.Lawful := by
  unfold newBlock at made
  rw [yields_atomically] at made
  obtain ⟨_, _, first, made⟩ := yields_bind.mp made
  obtain ⟨_, _, mutated, made⟩ := yields_bind.mp made
  obtain rfl := yields_modifyBlock.mp mutated
  obtain ⟨_, _, shaped, made⟩ := yields_bind.mp made
  obtain ⟨_, _, filled, made⟩ := yields_bind.mp made
  obtain rfl := yields_modifyBlock.mp filled
  obtain ⟨_, _, joined, made⟩ := yields_bind.mp made
  obtain ⟨rfl, rfl⟩ := yields_pure.mp made
  have bare := lawful_makeBlock lawful first
  have mutated := bare.say (f := fun block => { block with mutation := block.mutation.update mutation }) rfl
    rfl (bare.onePlug _)
  have shaped := lawful_applyShape mutated shaped
  have filled := shaped.say (f := fun block => { block with fields := block.fields.update fields }) rfl rfl
    (shaped.onePlug _)
  exact lawful_addMember filled.toLawful joined

theorem lawful_link (lawful : ws.Lawful) {c d : Nat}
    (bound : c < ws.connections.size ∧ d < ws.connections.size) (linked : Yields (link c d) ws u t) :
    t.Lawful := by
  obtain ⟨kind, owner, check, free, free', rfl⟩ := yields_link.mp linked
  exact lawful.link kind owner check free free' bound.1 bound.2

/-- What is plugged into a block gets a plug linked with a socket. -/
theorem exists_link_of_plugInto {child : Nat} {name : String}
    (plugged : Yields (plugInto b name child) ws u t) :
    ∃ c ∈ (ws.block b).sockets, ∃ d ∈ (ws.block child).plugs, Yields (link c d) ws u t := by
  obtain ⟨row, c, d, found, point, plug, linked⟩ := yields_plugInto.mp plugged
  refine ⟨c, List.mem_append_right _ (List.mem_filterMap.mpr ⟨row, (Block.row?_mem found).1, point⟩),
    d, ?_, linked⟩
  unfold Block.plugs
  split at plug <;> simp [plug]

/-- What follows a block gets a plug linked with a socket. -/
theorem exists_link_of_follow {child : Nat} (follows : Yields (follow b child) ws u t) :
    ∃ c ∈ (ws.block b).sockets, ∃ d ∈ (ws.block child).plugs, Yields (link c d) ws u t := by
  obtain ⟨c, d, next, previous, linked⟩ := yields_follow.mp follows
  exact ⟨c, by simp [Block.sockets, next], d, by simp [Block.plugs, previous], linked⟩

theorem lawful_unlink (lawful : ws.Lawful) {c : Nat} (unlinked : Yields (unlink c) ws u t) : t.Lawful := by
  rcases yields_unlink.mp unlinked with ⟨_, rfl⟩ | ⟨d, linked, rfl⟩
  · exact lawful
  · exact lawful.unlink linked

end Edit

namespace Workspace

variable {ws : Workspace} {Allowed : Workspace → Operation → Prop}

/-- An operation keeps a workspace lawful, whether it succeeds or fails. -/
theorem Lawful.after (lawful : ws.Lawful) {operation : Operation} (refers : operation.Refers ws) :
    (operation.after ws).Lawful := by
  rcases operation.after_cases ws with yields | same
  · cases operation with
    | newBlock =>
      obtain ⟨_, made, _⟩ := yields_map.mp yields
      exact Edit.lawful_newBlock lawful made
    | makeBlock =>
      obtain ⟨_, made, _⟩ := yields_map.mp yields
      exact (Edit.lawful_makeBlock lawful made).toLawful
    | addMember => exact Edit.lawful_addMember lawful yields
    | addRow => exact (Edit.lawful_addRow ⟨lawful, refers⟩ yields).toLawful
    | setOutput => exact (Edit.lawful_setOutput ⟨lawful, refers⟩ yields).toLawful
    | setPrevious => exact (Edit.lawful_setPrevious ⟨lawful, refers⟩ yields).toLawful
    | setNext => exact (Edit.lawful_setNext ⟨lawful, refers⟩ yields).toLawful
    | link => exact Edit.lawful_link lawful refers yields
    | plugInto b _ child =>
      obtain ⟨c, socket, d, plug, linked⟩ := Edit.exists_link_of_plugInto yields
      exact Edit.lawful_link lawful
        ⟨(lawful.sockets b c socket).bound, (lawful.plugs child d plug).bound⟩ linked
    | follow b child =>
      obtain ⟨c, socket, d, plug, linked⟩ := Edit.exists_link_of_follow yields
      exact Edit.lawful_link lawful
        ⟨(lawful.sockets b c socket).bound, (lawful.plugs child d plug).bound⟩ linked
    | unlink => exact Edit.lawful_unlink lawful yields
  · rw [same]
    exact lawful

/-- Wherever operations lead, the workspace is lawful. -/
theorem Reached.lawful (reached : ws.Reached Allowed) : ws.Lawful := by
  induction reached with
  | start name oneBased => exact .start name oneBased
  | next _ refers _ ih => exact ih.after refers

/-- Wherever operations lead, links go both ways, between connections of opposite kinds on different blocks,
of which one takes all or both take a type; and no block has both an output and a previous connection. -/
theorem Reached.linked_in_pairs (reached : ws.Reached Allowed) :
    (∀ c d, (ws.connection c).target = some d →
      (ws.connection d).target = some c ∧ (ws.connection d).kind = (ws.connection c).kind.opposite ∧
        (ws.connection d).owner ≠ (ws.connection c).owner ∧
        ∀ names others, (ws.connection c).check = some names → (ws.connection d).check = some others →
          names = [] ∨ others = [] ∨ ∃ name ∈ names, name ∈ others) ∧
      ∀ b, ¬ ((ws.block b).output.isSome ∧ (ws.block b).previous.isSome) := by
  have lawful := reached.lawful
  refine ⟨fun c d linked => ?_, fun b both => ?_⟩
  · obtain ⟨back, kind, owner, check⟩ := lawful.links c d linked
    refine ⟨back, kind, owner, fun names others here there => ?_⟩
    rw [here, there, TypeCheck.meets] at check
    simpa [or_assoc] using check
  · rcases lawful.onePlug b with none | none <;> simp [none] at both

/-- A number in the head of a loop gets another output while it is plugged in, and no previous connection
then. -/
theorem Reached.linked_in_pairs_number :
    let loop := (Operation.newBlock "controls_repeat_ext" none [] []).after {}
    let both := (Operation.newBlock "math_number" none [] []).after loop
    let plugged := (Operation.plugInto 0 "TIMES" 1).after both
    let ws := (Operation.setPrevious 1 none).after ((Operation.setOutput 1 (some ["String"])).after plugged)
    (ws.connection 2).target = some 4 ∧ (ws.block 1).output = some 5 ∧
      ws.Reached (fun _ _ => True) ∧
      (∀ c d, (ws.connection c).target = some d →
        (ws.connection d).target = some c ∧ (ws.connection d).kind = (ws.connection c).kind.opposite ∧
          (ws.connection d).owner ≠ (ws.connection c).owner ∧
          ∀ names others, (ws.connection c).check = some names → (ws.connection d).check = some others →
            names = [] ∨ others = [] ∨ ∃ name ∈ names, name ∈ others) ∧
        ∀ b, ¬ ((ws.block b).output.isSome ∧ (ws.block b).previous.isSome) := by
  intro loop both plugged ws
  have reached : ws.Reached fun _ _ => True := by
    refine .next (.next (.next (.next (.next (.start "workspace" false) ?_ trivial) ?_ trivial) ?_ trivial) ?_
      trivial) ?_ trivial
    · trivial
    · trivial
    · exact ⟨by decide +kernel, by decide +kernel⟩
    · exact (by decide +kernel : 1 < plugged.blocks.size)
    · exact (by decide +kernel : 1 < ((Operation.setOutput 1 (some ["String"])).after plugged).blocks.size)
  exact ⟨by decide +kernel, by decide +kernel, reached, Reached.linked_in_pairs reached⟩

end Workspace

end BlockCompiler

import BlockCompiler.Proofs.Document.Carries
import Mathlib.Data.List.Range

/-!
Building a stack makes the workspace carry it, and leaves all that was there before as it was.
-/

namespace BlockCompiler

namespace Workspace

/-- A workspace gets a number of blocks, all of which become members. -/
structure Adds (ws t : Workspace) (count : Nat) : Prop where
  size : t.blocks.size = ws.blocks.size + count
  members : t.members = ws.members ++ List.range' ws.blocks.size count
  options : t.name = ws.name ∧ t.oneBased = ws.oneBased

variable {ws u t : Workspace}

theorem Adds.refl : Adds ws ws 0 := ⟨rfl, by simp, rfl, rfl⟩

theorem Adds.trans {count more : Nat} (first : Adds ws u count) (second : Adds u t more) :
    Adds ws t (count + more) where
  size := by rw [second.size, first.size, Nat.add_assoc]
  members := by
    rw [second.members, first.members, first.size, List.append_assoc, List.range'_append_1]
  options := ⟨second.options.1.trans first.options.1, second.options.2.trans first.options.2⟩

/-- A block that was begun is there, with connections of its own that are not linked. -/
theorem Begun.added {block : Block} (begun : Begun (ws.joined ws.blocks.size) u block) :
    Adds ws u 1 ∧ Grown ws u (fun _ => False) ∧ u.Holds ws.blocks.size ∧
      ∀ c ∈ block.points, ws.connections.size ≤ c ∧ (u.connection c).target = none := by
  have fresh : ∀ c ∈ block.points, c < u.connections.size ∧ (u.connection c).owner = ws.blocks.size ∧
      (u.connection c).target = none := by
    intro c member
    obtain ⟨above, below⟩ := begun.range c member
    exact ⟨below, begun.fresh c above below⟩
  have frozen : ∀ c < ws.connections.size, u.connection c = ws.connection c := fun c bound => by
    rw [connection, begun.frozen c bound]
    rfl
  have here : u.block ws.blocks.size = block := begun.block
  refine ⟨⟨begun.size, begun.members, begun.options⟩, ⟨?_, ?_, begun.grows, ?_, ?_⟩, ⟨?_, ?_, ?_⟩, ?_⟩
  · rw [begun.size]
    exact Nat.le_succ _
  · intro n bound
    rw [Workspace.block, begun.before n bound]
    rfl
  · intro c bound
    rw [frozen c bound]
  · intro c bound _
    rw [frozen c bound]
  · rw [begun.size]
    exact Nat.lt_succ_self _
  · rw [here]
    exact begun.sound
  · rw [here]
    exact fun c member => ⟨(fresh c member).1, (fresh c member).2.1⟩
  · exact fun c member => ⟨(begun.range c member).1, (fresh c member).2.2⟩

end Workspace

namespace Edit

open Workspace

variable {ws t : Workspace} {u : Unit}

/-- The declaration of variables changes nothing else. -/
theorem declareUsed_declares {b : Nat} (declared : Yields (declareUsed b) ws u t) :
    ∃ list, t = { ws with declared := list } := by
  unfold declareUsed at declared
  rw [yields_get_bind] at declared
  have declares : ∀ {wanted : Variable}, Yields (discard <| declareVariable wanted) ws u t →
      ∃ list, t = { ws with declared := list } := by
    intro wanted run
    obtain ⟨_, known, _⟩ := yields_map.mp run
    obtain ⟨_, rfl⟩ := yields_declareVariable.mp known
    unfold Workspace.declare
    cases ws.variableNamed? wanted.name with
    | none => exact ⟨_, rfl⟩
    | some _ => exact ⟨_, rfl⟩
  cases field : (ws.block b).field "VAR" with
  | text name =>
    simp only [field] at declared
    by_cases named : name ≠ ""
    · rw [if_pos named] at declared
      exact declares declared
    · rw [if_neg named] at declared
      exact ⟨_, (yields_pure.mp declared).2⟩
  | _ =>
    simp only [field] at declared
    exact ⟨_, (yields_pure.mp declared).2⟩

theorem grown_declared (list : List Variable) :
    Adds ws { ws with declared := list } 0 ∧ ∀ Touched, Grown ws { ws with declared := list } Touched :=
  ⟨⟨rfl, by simp, rfl, rfl⟩,
    fun _ => ⟨Nat.le_refl _, fun _ _ => rfl, Nat.le_refl _, fun _ _ => rfl, fun _ _ _ => rfl⟩⟩

/-- Linking two connections of blocks that are there touches just these two, which were free. -/
theorem grown_yields_link {c d m n : Nat} (holds : ws.Holds m) (holds' : ws.Holds n)
    (mine : c ∈ (ws.block m).points) (other : d ∈ (ws.block n).points) (linked : Yields (link c d) ws u t) :
    Adds ws t 0 ∧ Grown ws t (fun e => e = c ∨ e = d) ∧ t.Linked c d ∧
      (ws.connection c).target = none ∧ (ws.connection d).target = none := by
  obtain ⟨_, apart, _, free, free', rfl⟩ := yields_link.mp linked
  have differ : c ≠ d := fun same => apart (by rw [same])
  obtain ⟨grown, linked⟩ := grown_link ⟨(holds.own c mine).1, (holds'.own d other).1⟩ differ
  exact ⟨⟨rfl, by simp [retarget], rfl, rfl⟩, grown, linked, free, free'⟩

theorem grown_follow {b n : Nat} (next : StackSpec) (proper : next.head?.isSome) (holds : ws.Holds b)
    (holds' : ws.Holds n) (followed : Yields (follow b n) ws u t) :
    Adds ws t 0 ∧ Grown ws t (fun c => (ws.block b).next = some c ∨ c ∈ (ws.block n).plugs) ∧
      t.Followed b n next := by
  obtain ⟨c, d, follower, plug, linked⟩ := yields_follow.mp followed
  have plugs : d ∈ (ws.block n).plugs := by simp [Block.plugs, plug]
  obtain ⟨added, grown, linked, _⟩ :=
    grown_yields_link holds holds' (Block.mem_points_of_next follower)
      (Block.mem_points_of_mem_plugs plugs) linked
  refine ⟨added, grown.weaken ?_, ?_⟩
  · rintro e _ (rfl | rfl)
    · exact .inl follower
    · exact .inr plugs
  · rw [Followed, if_pos proper, grown.blocks b holds.bound, grown.blocks n holds'.bound]
    exact ⟨c, d, follower, plug, linked⟩

theorem grown_plugInto {b n c : Nat} {name : String} {row : Row} (holds : ws.Holds b) (holds' : ws.Holds n)
    (found : (ws.block b).row? name = some row) (point : row.connection = some c)
    (plugged : Yields (plugInto b name n) ws u t) :
    Adds ws t 0 ∧ t.Socketed row n ∧ (ws.connection c).target = none ∧ (t.connection c).target.isSome ∧
      ∃ d ∈ (ws.block n).plugs, Grown ws t (fun e => e = c ∨ e = d) := by
  obtain ⟨row', c', d, found', point', plug, linked⟩ := yields_plugInto.mp plugged
  obtain rfl := Option.some.inj (found.symm.trans found')
  obtain rfl := Option.some.inj (point.symm.trans point')
  have plugs : d ∈ (ws.block n).plugs := Block.plugFor_mem plug
  have inPoints := Block.mem_points_of_row (Block.row?_mem found).1 point
  obtain ⟨added, grown, linked, free, _⟩ :=
    grown_yields_link holds holds' inPoints (Block.mem_points_of_mem_plugs plugs) linked
  refine ⟨added, ⟨c, d, point, ?_, linked⟩, free, Option.isSome_iff_exists.mpr ⟨d, linked.1⟩, d, plugs, grown⟩
  rw [grown.blocks n holds'.bound]
  exact plug

mutual

/-- The blocks of a stack that is built come last, and the plugs of its head are free. -/
theorem carries_buildStack {ws t : Workspace} {asValue : Bool} {stack : StackSpec} {root : Option Nat}
    (full : stack.Full) (built : Yields (buildStack asValue stack) ws root t) :
    Adds ws t stack.size ∧ Grown ws t (fun _ => False) ∧ t.Carries asValue ws.blocks.size stack ∧
      root = stack.head?.map (fun _ => ws.blocks.size) ∧
      (stack.head?.isSome → ∀ c ∈ (t.block ws.blocks.size).plugs,
        ws.connections.size ≤ c ∧ (t.connection c).target = none) := by
  match stack with
  | .empty =>
    rw [buildStack] at built
    obtain ⟨rfl, rfl⟩ := yields_pure.mp built
    exact ⟨Adds.refl, Grown.refl, trivial, rfl, by simp [Stack.head?]⟩
  | .block spec inputs next =>
    rw [buildStack] at built
    obtain ⟨filled, nested⟩ := full
    obtain ⟨b, w, made, built⟩ := yields_bind.mp built
    obtain ⟨rfl, _, block, begun, renders⟩ := begun_buildBlock made
    obtain ⟨added, grown, holds, free⟩ := begun.added
    have here : w.block ws.blocks.size = block := begun.block
    have sound := begun.sound
    obtain ⟨_, v, plugged, built⟩ := yields_bind.mp built
    obtain ⟨addedInputs, grownInputs, carriedInputs, distinct, _⟩ :=
      carriesRows_buildInputs filled holds plugged
    rw [here] at grownInputs
    obtain ⟨child, y, follows, built⟩ := yields_bind.mp built
    obtain ⟨addedNext, grownNext, carriedNext, child_eq, freeNext⟩ := carries_buildStack nested follows
    have start : v.blocks.size = ws.blocks.size + 1 + inputs.size := by
      rw [addedInputs.size, added.size]
    rw [start] at carriedNext child_eq freeNext
    have holds_v := holds.grown grownInputs
    have holds_y := holds_v.grown grownNext
    have here_v : v.block ws.blocks.size = block := (grownInputs.blocks _ holds.bound).trans here
    have here_y : y.block ws.blocks.size = block := (grownNext.blocks _ holds_v.bound).trans here_v
    -- What follows is attached by the next connection, and nothing else is touched from there on.
    have attached : ∃ list z, t = { z with declared := list } ∧ root = some ws.blocks.size ∧ Adds y z 0 ∧
        Grown y z (fun c => block.next = some c ∨
          next.head?.isSome ∧ c ∈ (y.block (ws.blocks.size + 1 + inputs.size)).plugs) ∧
        z.Followed ws.blocks.size (ws.blocks.size + 1 + inputs.size) next := by
      cases next with
      | empty =>
        cases child_eq
        obtain ⟨_, _, declared, built⟩ := yields_bind.mp built
        obtain ⟨list, rfl⟩ := declareUsed_declares declared
        obtain ⟨rfl, rfl⟩ := yields_pure.mp built
        refine ⟨list, y, rfl, rfl, Adds.refl, Grown.refl, ?_⟩
        unfold Followed
        rw [if_neg (by simp [Stack.head?]), here_y]
        intro c follower
        have point := Block.mem_points_of_next follower
        have below := (holds.own c (here ▸ point)).1
        rw [grownNext.target c (Nat.lt_of_lt_of_le below grownInputs.room) id, grownInputs.target c below ?_]
        · exact (free c point).2
        · rintro ⟨_, _, row, found, same⟩
          exact sound.row_not_next (Block.row?_mem found).1 same follower
      | block nextSpec nextInputs afterwards =>
        cases child_eq
        obtain ⟨_, z, followed, built⟩ := yields_bind.mp built
        obtain ⟨_, _, declared, built⟩ := yields_bind.mp built
        obtain ⟨list, rfl⟩ := declareUsed_declares declared
        obtain ⟨rfl, rfl⟩ := yields_pure.mp built
        obtain ⟨addedLink, grownLink, followed⟩ :=
          grown_follow (.block nextSpec nextInputs afterwards) rfl holds_y carriedNext.1 followed
        rw [here_y] at grownLink
        exact ⟨list, z, rfl, rfl, addedLink,
          grownLink.weaken fun c _ touched => touched.imp_right fun plug => ⟨rfl, plug⟩, followed⟩
    obtain ⟨list, z, rfl, rfl, addedLink, grownLink, followed⟩ := attached
    have late : Grown v { z with declared := list } fun c => block.next = some c := by
      refine ((grownNext.trans grownLink).trans ((grown_declared list).2 fun _ => False)).weaken ?_
      rintro c below ((no | follower | ⟨proper, plug⟩) | no)
      · exact no.elim
      · exact follower
      · have := (freeNext proper c plug).1
        omega
      · exact no.elim
    have last : Grown y { z with declared := list } fun c => block.next = some c ∨
        next.head?.isSome ∧ c ∈ (y.block (ws.blocks.size + 1 + inputs.size)).plugs :=
      (grownLink.trans ((grown_declared list).2 fun _ => False)).weaken fun _ _ touched =>
        touched.resolve_right id
    have whole := grownInputs.trans late
    have here_t : ({ z with declared := list } : Workspace).block ws.blocks.size = block :=
      (whole.blocks _ holds.bound).trans here
    have follower_owner : ∀ c, block.next = some c → (v.connection c).owner = ws.blocks.size ∧
        (y.connection c).owner = ws.blocks.size := by
      intro c follower
      have point := Block.mem_points_of_next follower
      exact ⟨(holds_v.own c (here_v ▸ point)).2, (holds_y.own c (here_y ▸ point)).2⟩
    refine ⟨?_, ?_, ⟨holds.grown whole, ?_, distinct, ?_, ?_, followed, ?_⟩, rfl, ?_⟩
    · exact (((added.trans addedInputs).trans addedNext).trans addedLink).trans (grown_declared list).1
    · refine (grown.trans whole).weaken ?_
      rintro c below (no | ⟨_, _, row, found, point⟩ | follower)
      · exact no
      · have := (free c (Block.mem_points_of_row (Block.row?_mem found).1 point)).1
        omega
      · have := (free c (Block.mem_points_of_next follower)).1
        omega
    · rw [here_t]
      exact renders
    · rw [Spared, here_t]
      intro row member unlabelled c point
      have inPoints := Block.mem_points_of_row member point
      rw [whole.target c (holds.own c (here ▸ inPoints)).1 ?_]
      · exact (free c inPoints).2
      · rintro (⟨name, labelled, other, found, otherPoint⟩ | follower)
        · obtain ⟨otherMember, named⟩ := Block.row?_mem found
          rw [sound.row_unique member otherMember point otherPoint, named] at unlabelled
          exact unlabelled labelled
        · exact sound.row_not_next member point follower
    · rw [added.size] at carriedInputs
      refine carriedInputs.grown holds_v late ?_
      intro c follower
      constructor
      · have := (follower_owner c follower).1
        omega
      · intro name _ row found point
        rw [here_v] at found
        exact sound.row_not_next (Block.row?_mem found).1 point follower
    · refine carriedNext.grown last ?_
      rintro c (follower | ⟨_, plug⟩)
      · have := (follower_owner c follower).2
        omega
      · exact .inr (.inr plug)
    · intro _ c plug
      rw [here_t] at plug
      have point := Block.mem_points_of_mem_plugs plug
      refine ⟨(free c point).1, ?_⟩
      rw [whole.target c (holds.own c (here ▸ point)).1 ?_]
      · exact (free c point).2
      · rintro (⟨_, _, row, found, rowPoint⟩ | follower)
        · exact sound.row_not_plug (Block.row?_mem found).1 rowPoint plug
        · exact sound.next_not_plug follower plug

theorem carriesRows_buildInputs {ws t : Workspace} {u : Unit} {b : Nat} {inputs : Rows BlockSpec String}
    (full : inputs.Full) (holds : ws.Holds b) (built : Yields (buildInputs b inputs) ws u t) :
    Adds ws t inputs.size ∧
      Grown ws t (fun c => ∃ name ∈ inputs.labels, ∃ row, (ws.block b).row? name = some row ∧
        row.connection = some c) ∧
      t.CarriesRows b ws.blocks.size inputs ∧ inputs.labels.Nodup ∧
      (∀ name ∈ inputs.labels, ∀ row, (ws.block b).row? name = some row →
        ∀ c, row.connection = some c → (ws.connection c).target = none) := by
  match inputs with
  | .nil =>
    rw [buildInputs] at built
    obtain ⟨_, rfl⟩ := yields_pure.mp built
    exact ⟨Adds.refl, Grown.refl, trivial, List.nodup_nil, by simp [Rows.labels]⟩
  | .cons name plugged rest =>
    rw [buildInputs, yields_get_bind] at built
    obtain ⟨proper, filled, others⟩ := full
    cases found : (ws.block b).row? name with
    | none => simp [found] at built
    | some row =>
      obtain ⟨kind, label, connection⟩ := row
      cases connection with
      | none => simp [found] at built
      | some c =>
        simp only [found] at built
        obtain ⟨child, w, made, built⟩ := yields_bind.mp built
        obtain ⟨added, grown, carried, child_eq, free⟩ := carries_buildStack filled made
        obtain ⟨head, plugged_eq⟩ := Option.isSome_iff_exists.mp proper
        rw [plugged_eq] at child_eq
        subst child_eq
        obtain ⟨_, v, plugs, built⟩ := yields_bind.mp built
        have holds_w := holds.grown grown
        have there := (carried.holds proper).1
        have positive := (carried.holds proper).2
        have here_w := grown.blocks b holds.bound
        obtain ⟨addedLink, socketed, socketFree, taken, d, plug, grownLink⟩ :=
          grown_plugInto holds_w there (here_w ▸ found) rfl plugs
        have holds_v := holds_w.grown grownLink
        have here_v := (grownLink.blocks b holds_w.bound).trans here_w
        obtain ⟨addedRest, grownRest, carriedRest, distinct, freeRest⟩ :=
          carriesRows_buildInputs others holds_v built
        rw [here_v] at grownRest freeRest
        have bound := holds.bound
        have socket := Block.mem_points_of_row (Block.row?_mem found).1 rfl
        have owner_c := holds_w.own c (here_w ▸ socket)
        have owner_d := there.own d (Block.mem_points_of_mem_plugs plug)
        have fresh := (free proper d plug).1
        have unnamed : name ∉ rest.labels := by
          intro member
          rw [freeRest name member _ found c rfl] at taken
          exact absurd taken (by decide)
        -- The rows that come later are other rows of the same block.
        have apart : ∀ e, (∃ name ∈ rest.labels, ∃ row, (ws.block b).row? name = some row ∧
            row.connection = some e) → (v.connection e).owner = b ∧ e ≠ c := by
          rintro e ⟨other, member, row, otherFound, point⟩
          refine ⟨(holds_v.own e (here_v ▸ Block.mem_points_of_row (Block.row?_mem otherFound).1 point)).2,
            ?_⟩
          rintro rfl
          rw [freeRest other member row otherFound e point] at taken
          exact absurd taken (by decide)
        have start : v.blocks.size = ws.blocks.size + plugged.size := by
          rw [addedLink.size, added.size, Nat.add_zero]
        rw [start] at carriedRest
        have carried_v := carried.grown grownLink fun e touched => by
          rcases touched with rfl | rfl
          · left
            omega
          · exact .inr (.inr plug)
        have there_v := there.grown grownLink
        obtain ⟨c', d', point', plug', linked⟩ := socketed
        obtain rfl := Option.some.inj point'
        have plugs' := Block.plugFor_mem plug'
        have owner_d' := there_v.own d' (Block.mem_points_of_mem_plugs plugs')
        refine ⟨?_, ?_, ⟨⟨⟨kind, label, some c⟩, ?_, ⟨c, d', rfl, ?_, ?_⟩, ?_⟩, proper, carriedRest⟩, ?_, ?_⟩
        · exact (added.trans addedLink).trans addedRest
        · refine ((grown.trans grownLink).trans grownRest).weaken ?_
          rintro e below ((no | rfl | rfl) | ⟨other, member, rest⟩)
          · exact no.elim
          · exact ⟨name, List.mem_cons_self .., _, found, rfl⟩
          · omega
          · exact ⟨other, List.mem_cons_of_mem _ member, rest⟩
        · rw [grownRest.blocks b holds_v.bound, here_v, found]
        · rw [grownRest.blocks _ there_v.bound, plug']
        · refine linked.grown grownRest ⟨(holds_v.own c (here_v ▸ socket)).1, owner_d'.1⟩ ⟨?_, ?_⟩
          · exact fun touched => (apart c touched).2 rfl
          · intro touched
            have := (apart d' touched).1
            omega
        · refine carried_v.grown grownRest fun e touched => ?_
          have := (apart e touched).1
          omega
        · exact List.nodup_cons.mpr ⟨unnamed, distinct⟩
        · intro other member row otherFound e point
          have inPoints := Block.mem_points_of_row (Block.row?_mem otherFound).1 point
          have below := (holds.own e inPoints).1
          rcases List.mem_cons.mp member with rfl | later
          · obtain rfl := Option.some.inj (found.symm.trans otherFound)
            obtain rfl := Option.some.inj point
            rw [← grown.target c below id]
            exact socketFree
          · rw [← grown.target e below id, ← grownLink.target e (Nat.lt_of_lt_of_le below grown.room) ?_]
            · exact freeRest other later row otherFound e point
            · rintro (same | rfl)
              · exact (apart e ⟨other, later, row, otherFound, point⟩).2 same
              · omega

end

end Edit

end BlockCompiler

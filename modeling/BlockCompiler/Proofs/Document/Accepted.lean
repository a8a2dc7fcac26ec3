import BlockCompiler.Proofs.Document.Built
import BlockCompiler.Proofs.Document.Read

/-!
Accepted documents: how their stacks come from a JSON value and go into a workspace.
-/

namespace BlockCompiler

/-- The values of the stacks of a document. -/
def Json.tops (data : Json) : List Json :=
  match data.member? "blocks" with
  | some (.list blocks) => blocks
  | _ => []

theorem Json.tops_eq {data : Json} {blocks : List Json}
    (found : data.member? "blocks" = some (.list blocks)) :
    data.tops = blocks := by
  rw [Json.tops, found]

theorem accepts_readItemsAt {α : Type} {read : String → Json → Checking α} {place : String} {i : Nat}
    {items : List Json} {s t : SchemaState} {results : List α}
    (accepted : Accepts (readItemsAt read place i items) s results t) :
    List.Forall₂ (fun item result => ∃ place s t, Accepts (read place item) s result t) items results := by
  induction items generalizing i s t results with
  | nil =>
    rw [readItemsAt] at accepted
    obtain ⟨rfl, _⟩ := accepts_pure.mp accepted
    exact .nil
  | cons item rest ih =>
    rw [readItemsAt] at accepted
    obtain ⟨value, _, first, accepted⟩ := accepts_bind.mp accepted
    obtain ⟨others, _, second, accepted⟩ := accepts_bind.mp accepted
    obtain ⟨rfl, _⟩ := accepts_pure.mp accepted
    exact .cons ⟨_, _, _, first⟩ (ih second)

/-- The stacks of a document are read from the values of its stacks, one by one. -/
theorem readAs_ofJson {strict : Bool} {data : Json} {document : Document} {unknown : List UnknownType}
    (read : Document.ofJson strict data = .ok (document, unknown)) :
    List.Forall₂ (Json.ReadAs strict) data.tops document.tops := by
  unfold Document.ofJson at read
  have accepted : ∃ t, Accepts (readDocumentValue strict data) {} document t := by
    cases result : (readDocumentValue strict data).run {} with
    | error error =>
      rw [result] at read
      cases read
    | ok pair =>
      rw [result] at read
      cases read
      exact ⟨pair.2, result⟩
  obtain ⟨t, accepted⟩ := accepted
  unfold readDocumentValue at accepted
  cases data with
  | object entries =>
    obtain ⟨name, _, _, accepted⟩ := accepts_bind.mp accepted
    obtain ⟨blocks, _, present, accepted⟩ := accepts_bind.mp accepted
    have present := requireMember_ok.mp (accepts_lift.mp present).1
    obtain ⟨_, _, _, accepted⟩ := accepts_bind.mp accepted
    cases blocks with
    | list blocks =>
      obtain ⟨_, _, _, accepted⟩ := accepts_bind.mp accepted
      obtain ⟨_, _, _, accepted⟩ := accepts_bind.mp accepted
      have tops : (Json.object entries).tops = blocks := Json.tops_eq present
      rw [tops]
      generalize (Table.get? entries "variables").getD (Json.list []) = declarations at accepted
      cases declarations with
      | list declarations =>
        obtain ⟨_, _, _, accepted⟩ := accepts_bind.mp accepted
        obtain ⟨_, _, built, accepted⟩ := accepts_bind.mp accepted
        obtain ⟨rfl, _⟩ := accepts_pure.mp accepted
        exact accepts_readItemsAt built
      | _ => exact absurd accepted not_accepts_throw
    | _ => exact absurd accepted not_accepts_throw
  | _ => exact absurd accepted not_accepts_throw

namespace Workspace

/-- A workspace carries stacks one after another, and none of their heads hangs on another block. -/
def CarriesAll (ws : Workspace) (n : Nat) : List StackSpec → Prop
  | [] => True
  | top :: rest =>
    top.head?.isSome ∧ ws.Carries false n top ∧ (∀ c ∈ (ws.block n).plugs, (ws.connection c).target = none) ∧
      CarriesAll ws (n + top.size) rest

variable {ws t : Workspace}

theorem CarriesAll.grown {n : Nat} {tops : List StackSpec} (carries : ws.CarriesAll n tops)
    (grown : Grown ws t fun _ => False) : t.CarriesAll n tops := by
  induction tops generalizing n with
  | nil => trivial
  | cons top rest ih =>
    obtain ⟨proper, here, free, others⟩ := carries
    have holds := (here.holds proper).1
    refine ⟨proper, here.grown grown fun c touched => touched.elim, ?_, ih others⟩
    intro c plug
    rw [grown.blocks n holds.bound] at plug
    rw [grown.target c (holds.own c (Block.mem_points_of_mem_plugs plug)).1 id]
    exact free c plug

end Workspace

namespace Edit

open Workspace

variable {ws t : Workspace} {u : Unit}

theorem carriesAll_buildTops {tops : List StackSpec} (full : ∀ top ∈ tops, top.head?.isSome ∧ top.Full)
    (built : Yields (tops.forM fun stack => discard <| buildStack false stack) ws u t) :
    Adds ws t (forestSize tops) ∧ Grown ws t (fun _ => False) ∧ t.CarriesAll ws.blocks.size tops := by
  induction tops generalizing ws with
  | nil =>
    obtain ⟨_, rfl⟩ := yields_pure.mp built
    exact ⟨Adds.refl, Grown.refl, trivial⟩
  | cons top rest ih =>
    obtain ⟨proper, topFull⟩ := full top (List.mem_cons_self ..)
    obtain ⟨_, next, first, others⟩ := yields_bind.mp built
    obtain ⟨root, run, _⟩ := yields_map.mp first
    obtain ⟨added, grown, carries, _, free⟩ := carries_buildStack topFull run
    obtain ⟨addedRest, grownRest, carriesRest⟩ :=
      ih (fun other member => full other (List.mem_cons_of_mem _ member)) others
    have here : next.CarriesAll ws.blocks.size [top] :=
      ⟨proper, carries, fun c plug => (free proper c plug).2, trivial⟩
    obtain ⟨_, carries, free, _⟩ := here.grown grownRest
    rw [added.size] at carriesRest
    exact ⟨added.trans addedRest, (grown.trans grownRest).weaken fun _ _ touched => touched.elim id id,
      proper, carries, free, carriesRest⟩

theorem grown_declareAll {list : List Variable}
    (declared : Yields (list.forM fun wanted => discard <| declareVariable wanted) ws u t) :
    Adds ws t 0 := by
  induction list generalizing ws with
  | nil =>
    obtain ⟨_, rfl⟩ := yields_pure.mp declared
    exact Adds.refl
  | cons wanted rest ih =>
    obtain ⟨_, next, first, others⟩ := yields_bind.mp declared
    obtain ⟨_, known, _⟩ := yields_map.mp first
    obtain ⟨_, rfl⟩ := yields_declareVariable.mp known
    refine Adds.trans ?_ (ih others)
    unfold Workspace.declare
    cases ws.variableNamed? wanted.name with
    | none => exact (grown_declared _).1
    | some _ => exact Adds.refl

end Edit

section Forall₂

variable {α β : Type} {R : α → β → Prop} {xs : List α} {ys : List β}

theorem exists_related (related : List.Forall₂ R xs ys) {x : α} (member : x ∈ xs) : ∃ y ∈ ys, R x y := by
  induction related with
  | nil => cases member
  | cons first _ ih =>
    rcases List.mem_cons.mp member with rfl | later
    · exact ⟨_, List.mem_cons_self .., first⟩
    · obtain ⟨y, among, holds⟩ := ih later
      exact ⟨y, List.mem_cons_of_mem _ among, holds⟩

theorem forall₂_and {S : α → β → Prop} (first : List.Forall₂ R xs ys) (second : List.Forall₂ S xs ys) :
    List.Forall₂ (fun x y => R x y ∧ S x y) xs ys := by
  induction first with
  | nil => exact .nil
  | cons here _ ih =>
    obtain ⟨there, others⟩ := List.forall₂_cons.mp second
    exact .cons ⟨here, there⟩ (ih others)

end Forall₂

/-- The workspace that is loaded from a value carries stacks that are read from the value, and nothing
else. -/
theorem carriesAll_loadWorkspace {strict : Bool} {oneBased : Option Bool} {data : Json} {ws : Workspace}
    (loaded : loadWorkspace strict oneBased data = .ok ws) :
    ∃ tops, List.Forall₂ (Json.ReadAs strict) data.tops tops ∧ ws.CarriesAll 0 tops ∧
      ws.blocks.size = forestSize tops ∧ ws.members = List.range (forestSize tops) := by
  unfold loadWorkspace at loaded
  cases read : Document.ofJson strict data with
  | error error =>
    rw [read] at loaded
    cases loaded
  | ok pair =>
    obtain ⟨document, unknown⟩ := pair
    simp only [read] at loaded
    have tops := readAs_ofJson read
    refine ⟨document.tops, tops, ?_⟩
    have built : ∃ start : Workspace, start.blocks.size = 0 ∧ start.members = [] ∧
        Yields (Edit.buildDocument document) start () ws := by
      refine ⟨{ name := document.name, oneBased := oneBased.getD document.oneBased }, rfl, rfl, ?_⟩
      unfold Document.toWorkspace at loaded
      unfold Yields
      dsimp only at loaded
      generalize (Edit.buildDocument document).run _ = outcome at loaded ⊢
      obtain ⟨result, next⟩ := (outcome : Except EditError Unit × Workspace)
      cases result with
      | ok value =>
        cases loaded
        rfl
      | error error => cases loaded
    obtain ⟨start, empty, nobody, built⟩ := built
    unfold Edit.buildDocument at built
    obtain ⟨_, next, declared, built⟩ := yields_bind.mp built
    have before := Edit.grown_declareAll declared
    have full : ∀ top ∈ document.tops, top.head?.isSome ∧ top.Full := by
      intro top member
      have turned : List.Forall₂ (flip (Json.ReadAs strict)) document.tops data.tops := tops.flip
      obtain ⟨value, _, readTop⟩ := exists_related turned member
      obtain ⟨_, _, _, rfl, _⟩ := readTop.block
      exact ⟨rfl, readTop.full⟩
    obtain ⟨added, _, carries⟩ := Edit.carriesAll_buildTops full built
    have fresh : next.blocks.size = 0 := by rw [before.size, empty]
    rw [fresh] at carries
    refine ⟨carries, by rw [added.size, fresh, Nat.zero_add], ?_⟩
    rw [added.members, before.members, nobody, fresh, List.range_eq_range']
    rfl

end BlockCompiler

import BlockCompiler.Proofs.Document.Presented
import BlockCompiler.Proofs.Emission.Loaded

/-!
Why documents are not loaded. The schema makes sure that ids differ and that the rows of all blocks can be
counted, so what it lets through is loaded, or some block does not fit where it should go.
-/

namespace BlockCompiler

/-- Whether an edit failed at the count of rows. Some of these failures tell of a value that is no number at
all. -/
def EditError.isCount : EditError → Bool
  | .count _ => true
  | _ => false

theorem EditError.isCount_of_isUnfit {error : EditError} (unfit : error.isUnfit) : error.isCount = false := by
  cases error <;> first | rfl | cases unfit

variable {known strict : Bool} {tight : Prop} {oneBased : Option Bool} {data : Json} {document : Document}

/-- The rows of a block that the schema lets through can be counted. -/
theorem BlockSpec.Checked.stop {spec : BlockSpec} (checked : spec.Checked known tight) :
    spec.stop = none := by
  unfold BlockSpec.stop
  cases named : BlockKind.ofName? spec.type with
  | none => rfl
  | some kind =>
    have valid := checked.valid named false false
    rw [Option.bind_some]
    cases has : kind.shape.family with
    | none => rfl
    | some family =>
      show (family.rows spec.content.mutation).2 = none
      cases family with
      | items =>
        obtain ⟨count, counted⟩ := valid.items
        simp only [RowFamily.rows, show itemCount spec.content.mutation = _ from counted]
      | arguments =>
        obtain ⟨params, listed⟩ := valid.params
        simp only [RowFamily.rows, show parameters spec.content.mutation = _ from listed]
      | arms =>
        obtain rfl : kind = .branch := by
          cases kind <;> first | rfl | cases has
        obtain ⟨count, counted⟩ := valid.arms
        simp only [RowFamily.rows,
          show ((spec.content.mutation.get? "elseif").getD (.int 0)).toWhole = _ from counted]

mutual

/-- No block of a stack has two inputs of one name if the value that describes it is proper. -/
theorem Stack.DescribedBy.tidy {strict : Bool} {stack : StackSpec} {value : Json}
    (described : stack.DescribedBy strict value) (proper : value.All Json.IsProper) : stack.Tidy := by
  match stack with
  | .empty => trivial
  | .block spec inputs next =>
    obtain ⟨_, _, _, within, below⟩ := described
    have turns : ∀ turn child, value.turn? turn = some child → child.All Json.IsProper :=
      fun _ _ turned => proper.turn? turned
    refine ⟨within.labels ▸ proper.nodup_entries "inputs", within.tidy (proper.entries "inputs"), ?_⟩
    cases there : value.turn? .next with
    | none =>
      rw [there] at below
      obtain rfl : next = .empty := below
      trivial
    | some follower =>
      rw [there] at below
      exact Stack.DescribedBy.tidy below (turns .next follower there)

theorem Rows.DescribedIn.tidy {strict : Bool} {rows : Rows BlockSpec String} {members : Table Json}
    (described : rows.DescribedIn strict members) (proper : Json.AllMembers Json.IsProper members) :
    rows.Tidy := by
  match rows with
  | .nil => trivial
  | .cons name plugged rest =>
    obtain ⟨value, others, rfl, first, second⟩ := described
    exact ⟨first.full.2, first.tidy proper.1, second.tidy proper.2⟩

end

theorem Document.DescribedBy.tidy (described : document.DescribedBy strict data)
    (proper : data.All Json.IsProper) :
    ∀ top ∈ document.tops, top.Tidy := by
  have each := described.tops
  have proper := proper.tops
  generalize data.tops = values at each proper
  generalize document.tops = tops at each
  induction each with
  | nil => simp
  | cons first _ ih =>
    obtain ⟨here, others⟩ := List.forall_mem_cons.mp proper
    exact List.forall_mem_cons.mpr ⟨first.tidy here, ih others⟩

/-- A value that describes a document is refused if some stack cannot be built: a block does not fit. -/
theorem exists_isUnfit_loadWorkspace (proper : data.All Json.IsProper)
    (described : document.DescribedBy strict data) (distinct : document.ownIds.Nodup)
    (cannot : ¬ ∀ top ∈ document.tops, top.Builds false) (oneBased : Option Bool) :
    ∃ error, loadWorkspace strict oneBased data = .error (.edit error) ∧ error.isUnfit := by
  have stops : ∀ top ∈ document.tops, ∀ spec ∈ top.heads, spec.stop = none := by
    intro top among spec inside
    exact (described.checked proper (fun none : False => none.elim) top among spec inside).stop
  have run := runs_buildDocument (described.tidy proper) stops distinct document.name
    (oneBased.getD document.oneBased)
  obtain ⟨unknown, read⟩ := ofJson_iff.mpr ⟨described, distinct⟩
  unfold loadWorkspace
  rw [read]
  dsimp only
  cases built : document.toWorkspace oneBased with
  | ok ws =>
    exact absurd (fun top member => ((loads_toWorkspace described.full built).builds top member).2.2) cannot
  | error error =>
    refine ⟨error, rfl, ?_⟩
    unfold Document.toWorkspace at built
    unfold Runs at run
    dsimp only at built
    generalize (Edit.buildDocument document).run _ = outcome at built run
    obtain ⟨result, ws⟩ := (outcome : Except EditError Unit × Workspace)
    cases result with
    | ok => cases built
    | error => cases built; exact run.1

/-- Where a document is not built, a block does not fit: no id is taken, no socket is in use, no row is there
twice, and no count is missing. -/
theorem isUnfit_loadWorkspace {error : EditError} (proper : data.All Json.IsProper)
    (failed : loadWorkspace strict oneBased data = .error (.edit error)) : error.isUnfit := by
  cases read : Document.ofJson strict data with
  | error stopped =>
    unfold loadWorkspace at failed
    rw [read] at failed
    cases failed
  | ok pair =>
    obtain ⟨described, distinct⟩ := ofJson_iff.mp ⟨pair.2, read⟩
    by_cases builds : ∀ top ∈ pair.1.tops, top.Builds false
    · obtain ⟨ws, loaded, _⟩ := exists_loadWorkspace described distinct builds oneBased
      rw [loaded] at failed
      cases failed
    · obtain ⟨other, refused, unfit⟩ := exists_isUnfit_loadWorkspace proper described distinct builds oneBased
      rw [refused] at failed
      cases failed
      exact unfit

end BlockCompiler

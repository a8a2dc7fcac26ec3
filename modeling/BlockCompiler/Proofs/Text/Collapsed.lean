import BlockCompiler.Proofs.Text.Gapped

/-!
Line feeds in a row: a text is cut into pieces by its runs of line feeds. Collapsing blank lines and dropping
the line feeds at the end shortens the runs and leaves the pieces as they are.
-/

namespace BlockCompiler

/-- A piece, and then more pieces with so many line feeds before each. -/
def apart (first : List Char) : List (Nat × List Char) → List Char
  | [] => first
  | (feeds, piece) :: rest => first ++ (List.replicate feeds '\n' ++ apart piece rest)

/-- Pieces hold no line feeds. There is something in each but perhaps the first, and there are line feeds
before it. -/
structure ArePieces (first : List Char) (runs : List (Nat × List Char)) : Prop where
  plain : '\n' ∉ first
  runs : ∀ run ∈ runs, 0 < run.1 ∧ run.2 ≠ [] ∧ '\n' ∉ run.2

/-- A text with runs of line feeds shortened: at most two are left of each, and none of those at the end. -/
def Collapses (text shorter : List Char) : Prop :=
  ∃ first runs below, ArePieces first runs ∧ text = apart first runs ++ List.replicate below '\n' ∧
    shorter = apart first (runs.map fun run => (min run.1 2, run.2))

section Pieces

variable {first piece text shorter : List Char} {runs : List (Nat × List Char)}

/-- Every text is cut by its line feeds. -/
theorem exists_pieces (text : List Char) :
    ∃ first runs below, ArePieces first runs ∧ text = apart first runs ++ List.replicate below '\n' := by
  induction text with
  | nil => exact ⟨[], [], 0, ⟨by simp, by simp⟩, rfl⟩
  | cons c text ih =>
    obtain ⟨first, runs, below, pieces, rfl⟩ := ih
    by_cases feed : c = '\n'
    · subst feed
      match first, runs, pieces with
      | [], [], pieces => exact ⟨[], [], below + 1, pieces, rfl⟩
      | [], (feeds, piece) :: rest, pieces =>
        obtain ⟨⟨_, filled⟩, others⟩ := List.forall_mem_cons.mp pieces.runs
        exact ⟨[], (feeds + 1, piece) :: rest, below,
          ⟨pieces.plain, List.forall_mem_cons.mpr ⟨⟨by simp, filled⟩, others⟩⟩,
          by simp [apart, List.replicate_succ]⟩
      | d :: first, runs, pieces =>
        exact ⟨[], (1, d :: first) :: runs, below,
          ⟨by simp, List.forall_mem_cons.mpr ⟨⟨by simp, by simp, pieces.plain⟩, pieces.runs⟩⟩,
          by simp [apart]⟩
    · refine ⟨c :: first, runs, below, ⟨?_, pieces.runs⟩, ?_⟩
      · exact List.not_mem_cons_of_ne_of_not_mem (Ne.symm feed) pieces.plain
      · cases runs <;> simp [apart]

theorem ArePieces.rest {feeds : Nat} (pieces : ArePieces first ((feeds, piece) :: runs)) :
    ArePieces piece runs := by
  obtain ⟨⟨_, _, plain⟩, others⟩ := List.forall_mem_cons.mp pieces.runs
  exact ⟨plain, others⟩

theorem ArePieces.cut (pieces : ArePieces first runs) :
    ArePieces first (runs.map fun run => (min run.1 2, run.2)) := by
  refine ⟨pieces.plain, fun run member => ?_⟩
  obtain ⟨old, among, rfl⟩ := List.mem_map.mp member
  obtain ⟨some, filled⟩ := pieces.runs old among
  exact ⟨by omega, filled⟩

/-- A run of line feeds before something else is collapsed to two. -/
theorem collapseBlankLines_replicate (feeds : Nat) (more : List Char) (other : more.head? ≠ some '\n') :
    collapseBlankLines (List.replicate feeds '\n' ++ more) = List.replicate (min feeds 2) '\n' ++
    collapseBlankLines more := by
  have none : ∀ rest : List Char, ¬ '\n' :: rest <+: more := by
    rintro rest ⟨later, rfl⟩
    exact other rfl
  induction feeds with
  | zero => rfl
  | succ feeds ih =>
    rw [List.replicate_succ, List.cons_append, collapseBlankLines_cons, ih]
    match feeds with
    | 0 => exact if_neg fun three => none _ three.2
    | 1 => exact if_neg fun three => none _ (List.cons_prefix_cons.mp three.2).2
    | feeds + 2 =>
      rw [if_pos ⟨rfl, ⟨List.replicate feeds '\n' ++ more, rfl⟩⟩, Nat.min_eq_right (by omega),
        Nat.min_eq_right (by omega)]

theorem head?_apart (pieces : ArePieces first runs) (filled : first ≠ []) (below : Nat) :
    (apart first runs ++ List.replicate below '\n').head? ≠ some '\n' := by
  obtain ⟨c, rest, rfl⟩ := List.exists_cons_of_ne_nil filled
  have other : c ≠ '\n' := fun same => pieces.plain (by simp [same])
  cases runs <;> simpa [apart] using other

theorem collapseBlankLines_apart (pieces : ArePieces first runs) (below : Nat) :
    collapseBlankLines (apart first runs ++ List.replicate below '\n') =
      apart first (runs.map fun run => (min run.1 2, run.2)) ++ List.replicate (min below 2) '\n' := by
  induction runs generalizing first with
  | nil =>
    have feeds := collapseBlankLines_replicate below [] (by simp)
    rw [List.append_nil] at feeds
    rw [List.map_nil, apart, collapseBlankLines_append pieces.plain, feeds]
    simp [collapseBlankLines]
  | cons run runs ih =>
    obtain ⟨feeds, piece⟩ := run
    have filled := (pieces.runs _ (List.mem_cons_self ..)).2.1
    rw [List.map_cons, apart, apart, List.append_assoc, List.append_assoc,
      collapseBlankLines_append pieces.plain,
      collapseBlankLines_replicate feeds _ (head?_apart pieces.rest filled below), ih pieces.rest]
    simp only [List.append_assoc]

/-- Pieces do not end with a line feed. -/
theorem getLast?_apart (pieces : ArePieces first runs) : (apart first runs).getLast? ≠ some '\n' := by
  induction runs generalizing first with
  | nil => exact fun last => pieces.plain (List.mem_of_getLast? last)
  | cons run runs ih =>
    obtain ⟨feeds, piece⟩ := run
    have filled := (pieces.runs _ (List.mem_cons_self ..)).2.1
    have some : apart piece runs ≠ [] := by
      cases runs <;> simp [apart, filled]
    rw [apart, ← List.append_assoc, List.getLast?_append_of_ne_nil _ some]
    exact ih pieces.rest

theorem filter_feeds (n : Nat) : (List.replicate n '\n').filter (· ≠ '\n') = [] :=
  List.filter_eq_nil_iff.mpr fun c member => by simp [List.eq_of_mem_replicate member]

theorem filter_apart (first : List Char) (runs : List (Nat × List Char)) :
    (apart first runs).filter (· ≠ '\n') = ((first :: runs.map (·.2)).flatten).filter (· ≠ '\n') := by
  induction runs generalizing first with
  | nil => simp [apart]
  | cons run runs ih =>
    rw [apart, List.filter_append, List.filter_append, filter_feeds, ih run.2,
      List.nil_append, ← List.filter_append]
    rfl

/-- All that is no line feed is left. -/
theorem Collapses.filter_eq (collapses : Collapses text shorter) :
    shorter.filter (· ≠ '\n') = text.filter (· ≠ '\n') := by
  obtain ⟨first, runs, below, _, rfl, rfl⟩ := collapses
  rw [List.filter_append, filter_feeds, List.append_nil, filter_apart, filter_apart, List.map_map]
  rfl

theorem Collapses.getLast?_ne (collapses : Collapses text shorter) : shorter.getLast? ≠ some '\n' := by
  obtain ⟨first, runs, below, pieces, _, rfl⟩ := collapses
  exact getLast?_apart pieces.cut

/-- Where a collapsed text has line feeds in a row, so had the text. -/
theorem feeds_of_collapseBlankLines {n : Nat} (few : n ≤ 2)
    (feeds : List.replicate n '\n' <+: collapseBlankLines text) :
    List.replicate n '\n' <+: text := by
  induction text generalizing n with
  | nil => exact feeds
  | cons c rest ih =>
    cases n with
    | zero => exact List.nil_prefix
    | succ n =>
      rw [collapseBlankLines_cons] at feeds
      rw [List.replicate_succ, List.cons_prefix_cons]
      split_ifs at feeds with three
      · refine ⟨three.1.symm, List.IsPrefix.trans ?_ three.2⟩
        match n, few with
        | 0, _ => exact List.nil_prefix
        | 1, _ => exact ⟨['\n'], rfl⟩
      · rw [List.replicate_succ, List.cons_prefix_cons] at feeds
        exact ⟨feeds.1, ih (by omega) feeds.2⟩

/-- No three line feeds in a row are left. -/
theorem not_infix_collapseBlankLines (text : List Char) :
    ¬ List.replicate 3 '\n' <:+: collapseBlankLines text := by
  induction text with
  | nil => decide
  | cons c rest ih =>
    rw [collapseBlankLines_cons]
    split_ifs with three
    · exact ih
    · intro inside
      rcases List.infix_cons_iff.mp inside with first | later
      · rw [List.replicate_succ, List.cons_prefix_cons] at first
        exact three ⟨first.1.symm, feeds_of_collapseBlankLines (Nat.le_refl 2) first.2⟩
      · exact ih later

theorem isPrefix_dropLineFeedsAtEnd (text : List Char) : dropLineFeedsAtEnd text <+: text :=
  List.rdropWhile_prefix _ _

/-- Collapsing blank lines and dropping the line feeds at the end shortens runs of line feeds. -/
theorem collapses (text : List Char) : Collapses text (dropLineFeedsAtEnd (collapseBlankLines text)) := by
  obtain ⟨first, runs, below, pieces, rfl⟩ := exists_pieces text
  refine ⟨first, runs, below, pieces, rfl, ?_⟩
  rw [collapseBlankLines_apart pieces, dropLineFeedsAtEnd_append (getLast?_apart pieces.cut)]

end Pieces

end BlockCompiler

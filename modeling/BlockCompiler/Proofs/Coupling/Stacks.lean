import BlockCompiler.Proofs.Coupling.Templates

/-!
Stacks side by side: by induction on two stacks of which the blocks correspond, what is emitted for them is
the same up to comments.
-/

namespace BlockCompiler

mutual

/-- Two stacks have corresponding blocks. Where disabled blocks may be left out, some of the first are missing
in the second. -/
def Stack.PairedBy (c : Coupling) : Stack BlockHead RowHead → Stack BlockHead RowHead → Prop
  | .empty, other => other = .empty
  | .block head rows next, other =>
    c.skips ∧ head.disabled ∧ next.PairedBy c other ∨
      ∃ bare bareRows bareNext, other = .block bare bareRows bareNext ∧
        c.Heads head bare ∧ rows.PairedBy c bareRows ∧ next.PairedBy c bareNext

/-- Two blocks have the same rows, with corresponding blocks in them. Nothing is in a row without a socket,
and what is left out of the socket of a value has no comments. -/
def Rows.PairedBy (c : Coupling) : Rows BlockHead RowHead → Rows BlockHead RowHead → Prop
  | .nil, other => other = .nil
  | .cons row plugged rest, other => ∃ bare bareRest, other = .cons row bare bareRest ∧
      (row.kind = .dummy → plugged = .empty) ∧
      (c.skips → row.kind = .value → bare.comments = if c.extra then [] else plugged.comments) ∧
      plugged.PairedBy c bare ∧ rest.PairedBy c bareRest

end

/-- Rows from a list correspond if what is in them does. -/
theorem Rows.pairedBy_ofList {c : Coupling} {specs : List RowSpec} {f g : RowSpec → Stack BlockHead RowHead}
    (each : ∀ row ∈ specs, (row.2.1 = .dummy → f row = .empty) ∧
      (c.skips → row.2.1 = .value → (g row).comments = if c.extra then [] else (f row).comments) ∧
      (f row).PairedBy c (g row)) :
    (Rows.ofList (specs.map fun row => (row.head, f row))).PairedBy c
    (Rows.ofList (specs.map fun row => (row.head, g row))) := by
  induction specs with
  | nil => rfl
  | cons row rest ih =>
    obtain ⟨⟨vacant, quiet, paired⟩, others⟩ := List.forall_mem_cons.mp each
    exact ⟨g row, _, rfl, vacant, quiet, paired, ih others⟩

namespace Coupling

variable (c : Coupling)

/-- Two emitters have templates that give the same at corresponding sites, up to comments. -/
structure Emitters (emitter other : Emitter) : Prop where
  strict : other.strict = emitter.strict ∨ c.lax ∧ other.strict = false
  templates :
    ∀ type, Option.Rel (fun f g : Template => ∀ site bare, c.Sites site bare → site.head.type = type →
    c.Agree (c.Gives site.head.isStatement) (f site) (g bare)) (emitter.templates.get? type)
    (other.templates.get? type)
  unknown : ∀ type, emitter.templates.get? type = none ↔ BlockKind.ofName? type = none

/-- What is emitted for two blocks corresponds: statements, the same value below comments, or no code at
all. -/
def Emitted (site bare : Site) (output other : Output) : Prop :=
  if site.head.isStatement then c.Bodies output other
  else output = other ∨ ∃ code order, output = .value (site.comments ++ code) order ∧
    other = .value (bare.comments ++ code) order

variable {c} {emitter other : Emitter}

/-- Emitters with the templates of all kinds give the same. -/
theorem emitters_of_known (templates : emitter.templates = knownTemplates)
    (templatesOther : other.templates = knownTemplates)
    (strict : other.strict = emitter.strict ∨ c.lax ∧ other.strict = false) : c.Emitters emitter other := by
  refine ⟨strict, fun type => ?_, fun type => ?_⟩
  · rw [templates, templatesOther, get?_knownTemplates]
    cases named : BlockKind.ofName? type with
    | none => exact .none
    | some kind =>
      refine .some fun site bare sites same => ?_
      subst same
      exact agree_template sites named
  · rw [templates, get?_knownTemplates]
    exact Option.map_eq_none_iff

/-- What is given for two corresponding sites that there are no templates for. -/
theorem Emitters.gives_placeholders (emitters : c.Emitters emitter other) {site bare : Site}
    (sites : c.Sites site bare) (unknown : BlockKind.ofName? site.head.type = none) :
    c.Agree (c.Gives site.head.isStatement)
      (emitter.templateOf site.head.type >>= fun template => template site)
      (other.templateOf bare.head.type >>= fun template => template bare) := by
  have none : ∀ type, BlockKind.ofName? type = none → emitter.templates.get? type = none ∧
      other.templates.get? type = none := by
    intro type unknown
    have related := emitters.templates type
    have here := (emitters.unknown type).mpr unknown
    rw [here] at related
    refine ⟨here, ?_⟩
    generalize other.templates.get? type = another at related ⊢
    cases related
    rfl
  have types : c.retypes = false → bare.head.type = site.head.type := fun exact =>
    sites.alike.type.resolve_right fun ⟨_, retypes, _⟩ => by rw [exact] at retypes; cases retypes
  have goOn := (@agree_placeholder c _ _ types).bind fun _ _ _ => agree_placeholders sites unknown
  unfold Emitter.templateOf
  rw [(none _ unknown).1, (none _ (sites.alike.kind.trans unknown)).2]
  by_cases strict : emitter.strict
  · rcases emitters.strict with same | ⟨lax, lenient⟩
    · simp only [same, if_pos strict]
      exact agree_errors fun _ exact => by rw [types exact]
    · simp only [if_pos strict]
      exact fun _ _ _ => .stopped lax
  · have lenient : other.strict = false := by
      rcases emitters.strict with same | ⟨_, lenient⟩
      · rw [same]
        simpa using strict
      · exact lenient
    simp only [if_neg strict, lenient, Bool.false_eq_true, if_false, pure_bind, bind_assoc]
    exact goOn

/-- What the templates for two corresponding sites give. -/
theorem Emitters.gives (emitters : c.Emitters emitter other) {site bare : Site} (sites : c.Sites site bare) :
    c.Agree (c.Gives site.head.isStatement)
      (emitter.templateOf site.head.type >>= fun template => template site)
      (other.templateOf bare.head.type >>= fun template => template bare) := by
  have related := emitters.templates site.head.type
  cases named : emitter.templates.get? site.head.type with
  | none => exact emitters.gives_placeholders sites ((emitters.unknown _).mp named)
  | some template =>
    have same : bare.head.type = site.head.type := sites.alike.type.resolve_right fun ⟨_, _, unknown, _⟩ => by
      rw [(emitters.unknown _).mpr unknown.1] at named
      cases named
    unfold Emitter.templateOf
    rw [same]
    rw [named] at related ⊢
    generalize other.templates.get? site.head.type = another at related
    cases related with
    | some given =>
      simp only [pure_bind]
      exact given site bare sites rfl

theorem Emitters.emitSite (emitters : c.Emitters emitter other) {site bare : Site}
    (sites : c.Sites site bare) :
    c.Agree (c.Emitted site bare) (emitter.emitSite site) (other.emitSite bare) := by
  rw [emitSite_eq, emitSite_eq]
  refine (emitters.gives sites).bind ?_
  intro one another gives
  unfold Emitted
  cases gives with
  | value code order plain =>
    obtain ⟨here, there⟩ := sites.alone plain
    simp only [finish_alone here, finish_alone there, pure_bind, plain]
    exact agree_pure (.inr ⟨code, order, rfl, rfl⟩)
  | statements told same filled whole =>
    refine (sites.finish same filled whole).bind fun code plain text => agree_pure ?_
    rw [if_pos told]
    exact ⟨_, _, rfl, rfl, text⟩
  | none plain =>
    refine agree_pure ?_
    rw [if_neg (by simp [plain])]
    exact .inl rfl

mutual

/-- Where no block is left out, comments are the same, or all are missing. -/
theorem comments_of_paired (all : c.skips = false) (stack : Stack BlockHead RowHead)
    {bare : Stack BlockHead RowHead} (paired : stack.PairedBy c bare) :
    bare.comments = if c.extra then [] else stack.comments := by
  match stack with
  | .empty =>
    obtain rfl : bare = .empty := paired
    cases c.extra <;> rfl
  | .block head rows next =>
    obtain ⟨skips, _⟩ | ⟨bareHead, bareRows, bareNext, rfl, heads, inside, below⟩ := paired
    · rw [all] at skips
      cases skips
    have rowsHere := comments_of_pairedRows all rows inside
    have nextHere := comments_of_paired all next below
    unfold Stack.comments at nextHere ⊢
    rw [Stack.heads, Stack.heads, List.filterMap_cons, List.filterMap_cons, List.filterMap_append,
      List.filterMap_append,
      (c.alike heads).comment, rowsHere, nextHere]
    cases c.extra <;> rfl

theorem comments_of_pairedRows (all : c.skips = false) (rows : Rows BlockHead RowHead)
    {bare : Rows BlockHead RowHead} (paired : rows.PairedBy c bare) :
    bare.heads.filterMap (·.comment) = if c.extra then [] else rows.heads.filterMap (·.comment) := by
  match rows with
  | .nil =>
    obtain rfl : bare = .nil := paired
    cases c.extra <;> rfl
  | .cons row plugged rest =>
    obtain ⟨barePlugged, bareRest, rfl, _, _, first, later⟩ := paired
    have here := comments_of_paired all plugged first
    unfold Stack.comments at here
    rw [Rows.heads, Rows.heads, List.filterMap_append, List.filterMap_append, here,
      comments_of_pairedRows all rest later]
    cases c.extra <;> rfl

end

/-- The first blocks of two corresponding stacks are of the same type, where no block is left out and no type
differs. -/
theorem type_of_paired (all : c.skips = false) (exact : c.retypes = false)
    {stack bare : Stack BlockHead RowHead} (paired : stack.PairedBy c bare) :
    bare.head?.map (·.type) = stack.head?.map (·.type) := by
  cases stack with
  | empty =>
    obtain rfl : bare = .empty := paired
    rfl
  | block head rows next =>
    obtain ⟨skips, _⟩ | ⟨bareHead, _, _, rfl, heads, _⟩ := paired
    · rw [all] at skips
      cases skips
    · refine congrArg some ((c.alike heads).type.resolve_right fun ⟨_, retypes, _⟩ => ?_)
      rw [exact] at retypes
      cases retypes

/-- The sites of two corresponding blocks. -/
theorem sites_of_heads {head bareHead : BlockHead} {rows bareRows : Rows BlockHead RowHead}
    {next bareNext : Stack BlockHead RowHead} (heads : c.Heads head bareHead)
    (sockets : List.Forall₂ c.Sockets (emitter.sockets rows) (other.sockets bareRows))
    (later : c.Agree c.Bodies (emitter.emit next) (other.emit bareNext)) (below : next.PairedBy c bareNext)
    (follows : head.isStatement ∨ next = .empty) :
    c.Sites ⟨head, emitter.sockets rows, emitter.emit next⟩
    ⟨bareHead, other.sockets bareRows, other.emit bareNext⟩ := by
  refine ⟨heads, sockets, later, fun plain => ?_⟩
  have plain : head.isStatement = false := plain
  obtain rfl : next = .empty := follows.resolve_left (by simp [plain])
  obtain rfl : bareNext = .empty := below
  rw [Emitter.emit, Emitter.emit]
  exact ⟨rfl, rfl⟩

mutual

/-- What is emitted for two corresponding stacks is the same up to comments. -/
theorem agree_stack (emitters : c.Emitters emitter other) (stack : Stack BlockHead RowHead)
    {bare : Stack BlockHead RowHead} (paired : stack.PairedBy c bare) (fits : stack.Fits) :
    (stack.IsOperand → c.Agree c.Plugged (emitter.emit stack) (other.emit bare)) ∧
      (stack.IsStatement → c.Agree c.Bodies (emitter.emit stack) (other.emit bare)) := by
  match stack with
  | .empty =>
    obtain rfl : bare = .empty := paired
    have bodies : c.Agree c.Bodies (emitter.emit .empty) (other.emit .empty) := by
      rw [Emitter.emit, Emitter.emit]
      exact agree_pure ⟨"", "", rfl, rfl, .refl _⟩
    exact ⟨fun _ => bodies.imp fun _ _ => .inr, fun _ => bodies⟩
  | .block head rows next =>
    obtain ⟨_, fit, statementNext, follows, fitsNext⟩ := fits
    obtain ⟨_, disabled, skipped⟩ | ⟨bareHead, bareRows, bareNext, rfl, heads, inside, below⟩ := paired
    · have later := (agree_stack emitters next skipped fitsNext).2 statementNext
      rw [Emitter.emit, if_pos disabled]
      exact ⟨fun _ => later.imp fun _ _ => .inr, fun _ => later⟩
    have later := (agree_stack emitters next below fitsNext).2 statementNext
    have alike := c.alike heads
    rw [Emitter.emit, Emitter.emit, alike.disabled]
    by_cases disabled : head.disabled
    · rw [if_pos disabled, if_pos disabled]
      exact ⟨fun _ => later.imp fun _ _ => .inr, fun _ => later⟩
    · rw [if_neg disabled, if_neg disabled]
      have sites := sites_of_heads heads (agree_sockets emitters rows inside fit) later below follows
      have emitted := emitters.emitSite sites
      constructor
      · rintro ⟨isValue, inline, _⟩
        refine emitted.imp fun output plain given => ?_
        unfold Emitted at given
        split_ifs at given
        · exact .inr given
        · rcases given with same | ⟨code, order, rfl, rfl⟩
          · exact .inl same
          · refine .inl ?_
            rw [Site.comments, Site.comments, if_pos inline, if_pos (alike.inline.trans inline)]
      · rintro ⟨isStatement, _⟩
        refine emitted.imp fun output plain given => ?_
        rwa [Emitted, if_pos isStatement] at given

theorem agree_sockets (emitters : c.Emitters emitter other) (rows : Rows BlockHead RowHead)
    {bare : Rows BlockHead RowHead} (paired : rows.PairedBy c bare) (fit : rows.Fit) :
    List.Forall₂ c.Sockets (emitter.sockets rows) (other.sockets bare) := by
  match rows with
  | .nil =>
    obtain rfl : bare = .nil := paired
    rw [Emitter.sockets, Emitter.sockets]
    exact .nil
  | .cons row plugged rest =>
    obtain ⟨barePlugged, bareRest, rfl, vacant, quiet, first, later⟩ := paired
    obtain ⟨operand, statement, fits, fitRest⟩ := fit
    rw [Emitter.sockets, Emitter.sockets]
    obtain ⟨asOperand, asStatement⟩ := agree_stack emitters plugged first fits
    refine .cons ⟨rfl, rfl, fun form => ?_, ?_, fun all exact => type_of_paired all exact first,
      fun empty => ?_, fun empty => ?_⟩
      (agree_sockets emitters rest later fitRest)
    · cases skips : c.skips with
      | true => exact quiet skips form
      | false => exact comments_of_paired skips plugged first
    · cases form : row.kind with
      | value => exact asOperand (operand form)
      | statement => exact (asStatement (statement form)).imp fun _ _ => .inr
      | dummy =>
        obtain rfl := vacant form
        exact asOperand trivial
    · cases plugged with
      | empty =>
        obtain rfl : barePlugged = .empty := first
        rfl
      | block => cases empty
    · cases barePlugged with
      | empty => exact Emitter.emit.eq_1 other
      | block => cases empty

end

end Coupling

end BlockCompiler

import Mathlib.Tactic.Tauto

/-!
Steps that may change a state and may fail: when they come to an end, with what value and in what state, and
what outlasts them whether they fail or not.
-/

namespace BlockCompiler

/-- A step that starts in one state gives a value and ends in another state. -/
def Yields {ε σ α : Type} (x : ExceptT ε (StateM σ) α) (s : σ) (a : α) (t : σ) : Prop :=
  (x.run s : Except ε α × σ) = (.ok a, t)

/-- A step that starts in some state gives a value and ends in a state that are as wanted, or fails with an
error that is excused. -/
@[irreducible] def Runs {ε σ α : Type} (Excused : ε → Prop) (x : ExceptT ε (StateM σ) α) (s : σ)
    (Wanted : α → σ → Prop) : Prop :=
  match (x.run s : Except ε α × σ) with
  | (.ok a, t) => Wanted a t
  | (.error error, _) => Excused error

section Steps

variable {ε σ α β : Type} {x : ExceptT ε (StateM σ) α} {f : α → ExceptT ε (StateM σ) β} {s t : σ}

@[simp] theorem yields_pure {a b : α} : Yields (pure a : ExceptT ε (StateM σ) α) s b t ↔ b = a ∧ t = s := by
  show ((Except.ok a, s) : Except ε α × σ) = (.ok b, t) ↔ _
  simp only [Prod.mk.injEq, Except.ok.injEq]
  tauto

@[simp] theorem yields_get {r : σ} : Yields (get : ExceptT ε (StateM σ) σ) s r t ↔ r = s ∧ t = s := by
  show ((Except.ok s, s) : Except ε σ × σ) = (.ok r, t) ↔ _
  simp only [Prod.mk.injEq, Except.ok.injEq]
  tauto

@[simp] theorem yields_set {r : σ} {u : PUnit} :
    Yields (set r : ExceptT ε (StateM σ) PUnit) s u t ↔ t = r := by
  show ((Except.ok ⟨⟩, r) : Except ε PUnit × σ) = (.ok u, t) ↔ _
  simp only [Prod.mk.injEq, true_and]
  exact eq_comm

@[simp] theorem yields_modify {change : σ → σ} {u : PUnit} :
    Yields (modify change : ExceptT ε (StateM σ) PUnit) s u t ↔ t = change s := by
  show ((Except.ok ⟨⟩, change s) : Except ε PUnit × σ) = (.ok u, t) ↔ _
  simp only [Prod.mk.injEq, true_and]
  exact eq_comm

@[simp] theorem yields_throw {error : ε} {a : α} :
    ¬ Yields (throw error : ExceptT ε (StateM σ) α) s a t := by
  intro given
  have shape : ((Except.error error, s) : Except ε α × σ) = (.ok a, t) := given
  simp at shape

theorem run_bind : ((x >>= f).run s : Except ε β × σ) =
    match (x.run s : Except ε α × σ) with
    | (.ok a, u) => (f a).run u
    | (.error error, u) => (.error error, u) := by
  show (ExceptT.bindCont f (x.run s).1) (x.run s).2 = _
  obtain ⟨result, u⟩ := (x.run s : Except ε α × σ)
  cases result <;> rfl

/-- A step made of two comes to an end just if the first does, and then the second from there. -/
theorem yields_bind {b : β} : Yields (x >>= f) s b t ↔ ∃ a u, Yields x s a u ∧ Yields (f a) u b t := by
  unfold Yields
  rw [run_bind]
  obtain ⟨result, u⟩ := (x.run s : Except ε α × σ)
  constructor
  · intro given
    cases result with
    | error error => cases given
    | ok a => exact ⟨a, u, rfl, given⟩
  · rintro ⟨a, v, first, second⟩
    cases first
    exact second

@[simp high] theorem yields_get_bind {g : σ → ExceptT ε (StateM σ) β} {b : β} :
    Yields (get >>= g) s b t ↔ Yields (g s) s b t := Iff.rfl

@[simp high] theorem yields_set_bind {r : σ} {g : PUnit → ExceptT ε (StateM σ) β} {b : β} :
    Yields (set r >>= g) s b t ↔ Yields (g ⟨⟩) r b t := Iff.rfl

@[simp high] theorem yields_modify_bind {change : σ → σ} {g : PUnit → ExceptT ε (StateM σ) β} {b : β} :
    Yields (modify change >>= g) s b t ↔ Yields (g ⟨⟩) (change s) b t := Iff.rfl

@[simp high] theorem yields_throw_bind {error : ε} {b : β} :
    ¬ Yields ((throw error : ExceptT ε (StateM σ) α) >>= f) s b t := by
  rw [yields_bind]
  rintro ⟨a, u, first, _⟩
  exact yields_throw first

@[simp] theorem yields_ite {c : Prop} [Decidable c] {y : ExceptT ε (StateM σ) α} {a : α} :
    Yields (if c then x else y) s a t ↔ if c then Yields x s a t else Yields y s a t := by
  split <;> rfl

theorem yields_map {g : α → β} {b : β} : Yields (g <$> x) s b t ↔ ∃ a, Yields x s a t ∧ b = g a := by
  rw [map_eq_pure_bind, yields_bind]
  constructor
  · rintro ⟨a, u, first, second⟩
    obtain ⟨rfl, rfl⟩ := yields_pure.mp second
    exact ⟨a, first, rfl⟩
  · rintro ⟨a, first, rfl⟩
    exact ⟨a, t, first, yields_pure.mpr ⟨rfl, rfl⟩⟩

theorem Yields.unique {a b : α} {u : σ} (one : Yields x s a t) (other : Yields x s b u) : a = b ∧ t = u := by
  have same : ((Except.ok a, t) : Except ε α × σ) = (.ok b, u) := one.symm.trans other
  simpa using same

section Runs

variable {Excused : ε → Prop} {Wanted Other : α → σ → Prop} {Last : β → σ → Prop}

theorem Yields.runs {a : α} (yields : Yields x s a t) (holds : Wanted a t) : Runs Excused x s Wanted := by
  unfold Runs
  rw [yields]
  exact holds

theorem Runs.of_yields {a : α} (runs : Runs Excused x s Wanted) (yields : Yields x s a t) : Wanted a t := by
  unfold Runs at runs
  rwa [yields] at runs

theorem runs_pure {a : α} (holds : Wanted a s) : Runs Excused (pure a : ExceptT ε (StateM σ) α) s Wanted :=
  (yields_pure.mpr ⟨rfl, rfl⟩).runs holds

theorem runs_throw {error : ε} (excused : Excused error) :
    Runs Excused (throw error : ExceptT ε (StateM σ) α) s Wanted := by
  unfold Runs
  exact excused

theorem runs_get {Here : σ → σ → Prop} (holds : Here s s) :
    Runs Excused (get : ExceptT ε (StateM σ) σ) s Here :=
  (yields_get.mpr ⟨rfl, rfl⟩).runs holds

theorem runs_modify {Here : PUnit → σ → Prop} {change : σ → σ} (holds : Here ⟨⟩ (change s)) :
    Runs Excused (modify change : ExceptT ε (StateM σ) PUnit) s Here :=
  (yields_modify.mpr rfl).runs holds

/-- A step made of two runs as wanted if the first does and the second does from wherever the first ends. -/
theorem Runs.bind (first : Runs Excused x s Wanted) (second : ∀ a t, Wanted a t → Runs Excused (f a) t Last) :
    Runs Excused (x >>= f) s Last := by
  unfold Runs at first ⊢
  rw [run_bind]
  generalize (x.run s : Except ε α × σ) = outcome at first ⊢
  obtain ⟨result, u⟩ := outcome
  cases result with
  | error error => exact first
  | ok a =>
    have rest := second a u first
    unfold Runs at rest
    exact rest

theorem Runs.imp (runs : Runs Excused x s Wanted) (weaker : ∀ a t, Wanted a t → Other a t) :
    Runs Excused x s Other := by
  unfold Runs at runs ⊢
  generalize (x.run s : Except ε α × σ) = outcome at runs ⊢
  obtain ⟨result, u⟩ := outcome
  cases result with
  | error error => exact runs
  | ok a => exact weaker a u runs

/-- More errors may be excused. -/
theorem Runs.excuse {Allowed : ε → Prop} (runs : Runs Excused x s Wanted)
    (more : ∀ error, Excused error → Allowed error) :
    Runs Allowed x s Wanted := by
  unfold Runs at runs ⊢
  generalize (x.run s : Except ε α × σ) = outcome at runs ⊢
  obtain ⟨result, u⟩ := outcome
  cases result with
  | error error => exact more error runs
  | ok a => exact runs

/-- Where a step ends, it came from where it started. -/
theorem Runs.traced (runs : Runs Excused x s Wanted) : Runs Excused x s (Yields x s) := by
  unfold Runs at runs ⊢
  unfold Yields
  generalize (x.run s : Except ε α × σ) = outcome at runs ⊢
  obtain ⟨result, u⟩ := outcome
  cases result with
  | error error => exact runs
  | ok a => rfl

/-- Where the first of two steps comes to an end, it is the second that may fail. -/
theorem runs_after {a : α} (first : Yields x s a t) (second : Runs Excused (f a) t Last) :
    Runs Excused (x >>= f) s Last := by
  have only : Runs Excused x s fun b u => b = a ∧ u = t := first.runs ⟨rfl, rfl⟩
  refine only.bind ?_
  rintro _ _ ⟨rfl, rfl⟩
  exact second

theorem runs_get_bind {g : σ → ExceptT ε (StateM σ) β} (runs : Runs Excused (g s) s Last) :
    Runs Excused (get >>= g) s Last :=
  runs_after (yields_get.mpr ⟨rfl, rfl⟩) runs

theorem runs_throw_bind {error : ε} (excused : Excused error) :
    Runs Excused ((throw error : ExceptT ε (StateM σ) α) >>= f) s Last := by
  have fails : Runs Excused (throw error : ExceptT ε (StateM σ) α) s fun _ _ => False := runs_throw excused
  exact fails.bind fun _ _ => False.elim

theorem runs_ite {c : Prop} [Decidable c] {y : ExceptT ε (StateM σ) α} (yes : c → Runs Excused x s Wanted)
    (no : ¬ c → Runs Excused y s Wanted) : Runs Excused (if c then x else y) s Wanted := by
  split
  · exact yes ‹_›
  · exact no ‹_›

/-- Two runs of one step. -/
theorem Runs.and {Allowed : ε → Prop} (runs : Runs Excused x s Wanted) (others : Runs Allowed x s Other) :
    Runs Excused x s fun a t => Wanted a t ∧ Other a t := by
  unfold Runs at runs others ⊢
  generalize (x.run s : Except ε α × σ) = outcome at runs others ⊢
  obtain ⟨result, u⟩ := outcome
  cases result with
  | error error => exact runs
  | ok a => exact ⟨runs, others⟩

/-- A step of which no error is excused comes to an end. -/
theorem Runs.exists_yields (runs : Runs Excused x s Wanted) (none : ∀ error, ¬ Excused error) :
    ∃ a t, Yields x s a t ∧ Wanted a t := by
  unfold Runs at runs
  cases outcome : (x.run s : Except ε α × σ) with
  | mk result t =>
    rw [outcome] at runs
    cases result with
    | error error => exact absurd runs (none error)
    | ok a => exact ⟨a, t, outcome, runs⟩

/-- A step that gives a value ends in some state. -/
theorem exists_yields_of_toOption {a : α} (given : (x.run s : Except ε α × σ).1.toOption = some a) :
    ∃ t, Yields x s a t := by
  cases outcome : (x.run s : Except ε α × σ) with
  | mk result t =>
    rw [outcome] at given
    cases result with
    | error error => cases given
    | ok b =>
      obtain rfl : b = a := Option.some.inj given
      exact ⟨t, outcome⟩

end Runs

end Steps

/-- From a state with a property, a step leads to such a state, even if it fails. -/
def Maintains {ε σ α : Type} (P : σ → Prop) (x : ExceptT ε (StateM σ) α) : Prop :=
  ∀ s, P s → P (x.run s : Except ε α × σ).2

section Maintains

variable {ε σ α β : Type} {P : σ → Prop} {x : ExceptT ε (StateM σ) α} {f : α → ExceptT ε (StateM σ) β}

theorem maintains_pure (a : α) : Maintains P (pure a : ExceptT ε (StateM σ) α) := fun _ => id

theorem maintains_throw (error : ε) : Maintains P (throw error : ExceptT ε (StateM σ) α) := fun _ => id

theorem maintains_get : Maintains P (get : ExceptT ε (StateM σ) σ) := fun _ => id

theorem maintains_modify {change : σ → σ} (kept : ∀ s, P s → P (change s)) :
    Maintains P (modify change : ExceptT ε (StateM σ) PUnit) := kept

theorem Maintains.bind (first : Maintains P x) (second : ∀ a, Maintains P (f a)) : Maintains P (x >>= f) := by
  intro s holds
  have middle := first s holds
  rw [run_bind]
  generalize (x.run s : Except ε α × σ) = outcome at middle ⊢
  obtain ⟨result, u⟩ := outcome
  cases result with
  | error error => exact middle
  | ok a => exact second a u middle

/-- A step that gives no value fails in some state. -/
theorem exists_fails_of_toOption {s : σ} (given : (x.run s : Except ε α × σ).1.toOption = none) :
    ∃ error t, (x.run s : Except ε α × σ) = (.error error, t) := by
  cases outcome : (x.run s : Except ε α × σ) with
  | mk result t =>
    rw [outcome] at given
    cases result with
    | error error => exact ⟨error, t, rfl⟩
    | ok a => cases given

end Maintains

/-- A result that passes a test is a value. -/
theorem exists_ok_of_any {ε α : Type} {result : Except ε α} {p : α → Bool} (passes : result.toOption.any p) :
    ∃ value, result = .ok value ∧ p value := by
  cases result with
  | error => cases passes
  | ok value => exact ⟨value, rfl, passes⟩

end BlockCompiler

/-!
Tables: texts mapped to values, kept in the order in which the keys first came.
-/

namespace BlockCompiler

/-- A table from texts to values. The functions below keep every key at most once. -/
abbrev Table (α : Type) := List (String × α)

namespace Table

variable {α : Type}

/-- The value of a key. -/
def get? : Table α → String → Option α
  | [], _ => none
  | (k, v) :: rest, key => if k = key then some v else get? rest key

/-- Whether a key has a value. -/
def has (t : Table α) (key : String) : Bool := (get? t key).isSome

/-- Give a key a value. A new key goes to the end, a known one keeps its place. -/
def set : Table α → String → α → Table α
  | [], key, value => [(key, value)]
  | (k, v) :: rest, key, value =>
    if k = key then (k, value) :: rest else (k, v) :: set rest key value

/-- Give a key a value unless it has one. -/
def setDefault (t : Table α) (key : String) (value : α) : Table α :=
  if has t key then t else set t key value

/-- Lay the entries of a second table over the first. -/
def update (t changes : Table α) : Table α := changes.foldl (fun t entry => set t entry.1 entry.2) t

/-- Give keys the values of some defaults unless they have values. -/
def fill (t defaults : Table α) : Table α :=
  defaults.foldl (fun t entry => setDefault t entry.1 entry.2) t

/-- Build a table from entries, in which a repeated key keeps its first place and its last value. -/
def ofEntries (entries : List (String × α)) : Table α := update [] entries

/-- The keys, in order. -/
def keys (t : Table α) : List String := t.map (·.1)

theorem get?_set (t : Table α) (key other : String) (value : α) :
    get? (set t key value) other = if key = other then some value else get? t other := by
  induction t with
  | nil => simp [set, get?]
  | cons entry rest ih =>
    obtain ⟨k, v⟩ := entry
    by_cases same : k = key
    · subst same
      by_cases hit : k = other <;> simp [set, get?, hit]
    · by_cases hit : k = other
      · subst hit
        simp [set, get?, same, Ne.symm same]
      · simp [set, get?, same, hit, ih]

theorem keys_set_of_has {t : Table α} {key : String} (known : has t key) (value : α) :
    keys (set t key value) = keys t := by
  induction t with
  | nil => simp [has, get?] at known
  | cons entry rest ih =>
    obtain ⟨k, v⟩ := entry
    by_cases same : k = key
    · simp [set, same, keys]
    · have inRest : has rest key := by simpa [has, get?, same] using known
      have := ih inRest
      simp only [keys] at this
      simp [set, same, keys, this]

end Table

end BlockCompiler

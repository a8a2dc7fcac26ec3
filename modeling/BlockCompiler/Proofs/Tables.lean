import BlockCompiler.Table
import Mathlib.Data.List.Nodup

/-!
Tables without double keys: what they give for a key, and what they hold once a key is set.
-/

namespace BlockCompiler

namespace Table

variable {α : Type} {t : Table α} {key : String} {value : α}

theorem get?_of_not_mem (absent : key ∉ t.keys) : t.get? key = none := by
  induction t with
  | nil => rfl
  | cons entry rest ih =>
    obtain ⟨k, v⟩ := entry
    simp only [keys, List.map_cons, List.mem_cons, not_or] at absent
    rw [get?, if_neg (Ne.symm absent.1)]
    exact ih absent.2

/-- What a table gives for a key stands in it. -/
theorem mem_of_get? (found : t.get? key = some value) : (key, value) ∈ t := by
  induction t with
  | nil => cases found
  | cons first rest ih =>
    obtain ⟨k, v⟩ := first
    rw [get?] at found
    split at found
    · rename_i same
      cases found
      rw [same]
      exact List.mem_cons_self ..
    · exact List.mem_cons_of_mem _ (ih found)

/-- What stands in a table without double keys is what the table gives for its key. -/
theorem get?_of_mem (distinct : t.keys.Nodup) (member : (key, value) ∈ t) : t.get? key = some value := by
  induction t with
  | nil => cases member
  | cons first rest ih =>
    obtain ⟨k, v⟩ := first
    obtain ⟨apart, distinct⟩ := List.nodup_cons.mp distinct
    rw [get?]
    rcases List.mem_cons.mp member with same | later
    · cases same
      rw [if_pos rfl]
    · rw [if_neg]
      · exact ih distinct later
      · rintro rfl
        exact apart (List.mem_map_of_mem (f := (·.1)) later)

theorem has_set (t : Table α) (key other : String) (value : α) :
    (t.set key value).has other = (decide (key = other) || t.has other) := by
  simp only [has, get?_set]
  split_ifs with same <;> simp [same]

theorem mem_set {entry : String × α} (member : entry ∈ t.set key value) :
    entry = (key, value) ∨ entry ∈ t := by
  induction t with
  | nil => exact .inl (List.mem_singleton.mp member)
  | cons first rest ih =>
    rw [Table.set] at member
    split at member
    · rename_i same
      rcases List.mem_cons.mp member with rfl | later
      · exact .inl (by rw [same])
      · exact .inr (List.mem_cons_of_mem _ later)
    · rcases List.mem_cons.mp member with rfl | later
      · exact .inr (List.mem_cons_self ..)
      · exact (ih later).imp_right (List.mem_cons_of_mem _)

theorem has_iff_mem_keys : t.has key ↔ key ∈ t.keys := by
  induction t with
  | nil => simp [has, get?, keys]
  | cons first rest ih =>
    obtain ⟨k, v⟩ := first
    by_cases same : k = key
    · simp [has, get?, keys, same]
    · simpa [has, get?, keys, same, Ne.symm same] using ih

theorem mem_keys_set {other : String} : other ∈ (t.set key value).keys ↔ other = key ∨ other ∈ t.keys := by
  rw [← has_iff_mem_keys, ← has_iff_mem_keys, has_set, Bool.or_eq_true, decide_eq_true_iff, eq_comm]

theorem keys_set_of_not_has (unknown : t.has key = false) : (t.set key value).keys = t.keys ++ [key] := by
  induction t with
  | nil => rfl
  | cons first rest ih =>
    obtain ⟨k, v⟩ := first
    by_cases same : k = key
    · simp [has, get?, same] at unknown
    · rw [Table.set, if_neg same]
      exact congrArg (k :: ·) (ih (by simpa [has, get?, same] using unknown))

/-- No key stands twice in a table. -/
theorem nodup_set (distinct : t.keys.Nodup) : (t.set key value).keys.Nodup := by
  by_cases known : t.has key
  · rwa [keys_set_of_has known]
  · rw [keys_set_of_not_has (by simpa using known)]
    refine List.nodup_append.mpr ⟨distinct, List.nodup_singleton key, fun a among b single same => ?_⟩
    rw [List.mem_singleton.mp single] at same
    rw [same] at among
    exact known (has_iff_mem_keys.mpr among)

end Table

end BlockCompiler

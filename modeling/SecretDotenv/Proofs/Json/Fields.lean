import Mathlib.Data.String.Basic
import Mathlib.Logic.Function.Basic
import SecretDotenv.Json.Value

/-! Fields in the order of their keys. There is one for each key, and its value is the last
that was given. -/
namespace SecretDotenv.Json

variable {α : Type}

def valueOf? (fields : List (String × α)) (key : String) : Option α :=
  (fields.find? (·.1 == key)).map (·.2)

theorem valueOf?_cons (k : String) (v : α) (rest : List (String × α)) (key : String) :
    valueOf? ((k, v) :: rest) key = if k = key then some v else valueOf? rest key := by
  unfold valueOf?
  by_cases hk : k = key
  · simp [hk]
  · have hother : (k == key) = false := beq_false_of_ne hk
    simp [hother, hk]

theorem valueOf?_insertField (key : String) (value : α) (fields : List (String × α))
    (other : String) :
    valueOf? (insertField key value fields) other =
      if key = other then some value else valueOf? fields other := by
  induction fields with
  | nil => exact valueOf?_cons key value [] other
  | cons field rest ih =>
    obtain ⟨k, v⟩ := field
    unfold insertField
    split
    · next hkey =>
      subst hkey
      rw [valueOf?_cons, valueOf?_cons]
      split <;> rfl
    split
    · rw [valueOf?_cons]
    · next hkey _ =>
      rw [valueOf?_cons, valueOf?_cons, ih]
      split
      · next hk => rw [if_neg (hk ▸ hkey)]
      · rfl

theorem mem_keys_insertField {key : String} {value : α} {fields : List (String × α)} {k : String}
    (h : k ∈ (insertField key value fields).map Prod.fst) : k = key ∨ k ∈ fields.map Prod.fst := by
  induction fields with
  | nil => exact Or.inl (List.mem_singleton.1 h)
  | cons field rest ih =>
    obtain ⟨first, v⟩ := field
    unfold insertField at h
    split at h
    · exact (List.mem_cons.1 h).imp_right (List.mem_cons_of_mem _)
    split at h
    · exact List.mem_cons.1 h
    · rcases List.mem_cons.1 h with rfl | h
      · exact Or.inr List.mem_cons_self
      · exact (ih h).imp_right (List.mem_cons_of_mem _)

theorem pairwise_insertField (key : String) (value : α) {fields : List (String × α)}
    (h : (fields.map Prod.fst).Pairwise (· < ·)) :
    ((insertField key value fields).map Prod.fst).Pairwise (· < ·) := by
  induction fields with
  | nil => exact List.pairwise_singleton _ _
  | cons field rest ih =>
    obtain ⟨k, v⟩ := field
    obtain ⟨hfirst, hrest⟩ := List.pairwise_cons.1 h
    unfold insertField
    split
    · next hkey =>
      subst hkey
      exact h
    split
    · next hless =>
      apply List.pairwise_cons.2
      refine ⟨?_, h⟩
      intro other hother
      rcases List.mem_cons.1 hother with rfl | hother
      · exact hless
      · exact hless.trans (hfirst other hother)
    · next hkey hless =>
      apply List.pairwise_cons.2
      refine ⟨?_, ih hrest⟩
      intro other hother
      rcases mem_keys_insertField hother with rfl | hother
      · exact lt_of_le_of_ne (not_lt.1 hless) (Ne.symm hkey)
      · exact hfirst other hother

theorem sortedFields_eq (fields : List (String × α)) :
    sortedFields fields =
      fields.foldl (fun sorted field => insertField field.1 field.2 sorted) [] := rfl

theorem pairwise_sortedFields (fields : List (String × α)) :
    ((sortedFields fields).map Prod.fst).Pairwise (· < ·) := by
  suffices hfrom : ∀ sorted : List (String × α), (sorted.map Prod.fst).Pairwise (· < ·) →
      ((fields.foldl (fun sorted field => insertField field.1 field.2 sorted) sorted).map
        Prod.fst).Pairwise (· < ·) by
    rw [sortedFields_eq]
    exact hfrom [] List.Pairwise.nil
  induction fields with
  | nil => exact fun _ h => h
  | cons field rest ih => exact fun sorted h => ih _ (pairwise_insertField field.1 field.2 h)

/-- What keys stand for once each field has given its key a value, the first field first. -/
def lastValue? (fields : List (String × α)) : String → Option α :=
  fields.foldl (fun values field => Function.update values field.1 (some field.2)) fun _ => none

theorem valueOf?_sortedFields (fields : List (String × α)) :
    valueOf? (sortedFields fields) = lastValue? fields := by
  suffices hfrom : ∀ sorted : List (String × α),
      valueOf? (fields.foldl (fun sorted field => insertField field.1 field.2 sorted) sorted) =
        fields.foldl (fun (values : String → Option α) field =>
          Function.update values field.1 (some field.2)) (valueOf? sorted) by
    rw [sortedFields_eq]
    exact hfrom []
  induction fields with
  | nil => exact fun _ => rfl
  | cons field rest ih =>
    intro sorted
    have hfirst : valueOf? (insertField field.1 field.2 sorted) =
        Function.update (valueOf? sorted) field.1 (some field.2) := by
      funext key
      rw [valueOf?_insertField, Function.update_apply]
      simp only [eq_comm]
    rw [List.foldl_cons, List.foldl_cons, ih, hfirst]

end SecretDotenv.Json

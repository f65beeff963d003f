import Mathlib.Data.List.Basic
import Mathlib.Data.List.ReduceOption

/-!
# Lists of optional values

A list of optional values is its values, as far as they are counted or the
missing ones stand at its end.
-/

namespace Foundation

variable {α : Type*} {values : List (Option α)}

theorem count_some [BEq α] [LawfulBEq α] (values : List (Option α)) (a : α) :
    values.count (some a) = values.reduceOption.count a := by
  induction values with
  | nil => rfl
  | cons value values ih =>
      cases value with
      | none => simp [ih]
      | some b => by_cases h : b = a <;> simp [ih, h]

theorem length_eq_add_count [BEq α] [LawfulBEq α] (values : List (Option α)) :
    values.length = values.reduceOption.length + values.count none := by
  induction values with
  | nil => rfl
  | cons value values ih =>
      cases value with
      | none =>
          simp [ih]
          omega
      | some b =>
          simp [ih]
          omega

/-- Missing values only follow the ones that are there. -/
def AbsentLast (values : List (Option α)) : Prop :=
  ∃ missing, values = values.reduceOption.map some ++ List.replicate missing none

theorem reduceOption_map_some (present : List α) :
    (present.map some).reduceOption = present := by
  induction present with
  | nil => rfl
  | cons a present ih => simp [ih]

theorem reduceOption_padded (present : List α) (missing : Nat) :
    (present.map some ++ List.replicate missing none).reduceOption = present := by
  rw [List.reduceOption_append, List.reduceOption_replicate_none, List.append_nil,
    reduceOption_map_some]

theorem eq_map_some_of_none_notMem (h : none ∉ values) :
    values = values.reduceOption.map some := by
  induction values with
  | nil => rfl
  | cons value values ih =>
      obtain ⟨hvalue, hrest⟩ := List.ne_and_not_mem_of_not_mem_cons h
      cases value with
      | none => exact absurd rfl hvalue
      | some a => simp [← ih hrest]

end Foundation

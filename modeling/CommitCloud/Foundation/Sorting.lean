import Mathlib.Data.List.Sort

/-!
# Sorting by a partial comparison

A relation may be a total order on the values of one list only.  That is
enough for an insertion sort to put this list in ascending order, and a list
that is in strictly ascending order is the only one of its permutations.
-/

namespace Foundation

variable {α : Type*} {r : α → α → Prop} {values : List α}

structure TotalOrderOn (r : α → α → Prop) (values : List α) : Prop where
  total : ∀ a ∈ values, ∀ b ∈ values, r a b ∨ r b a
  trans : ∀ a ∈ values, ∀ b ∈ values, ∀ c ∈ values, r a b → r b c → r a c

theorem TotalOrderOn.subset {smaller : List α} (h : TotalOrderOn r values)
    (hsubset : smaller ⊆ values) : TotalOrderOn r smaller where
  total a ha b hb := h.total a (hsubset ha) b (hsubset hb)
  trans a ha b hb c hc := h.trans a (hsubset ha) b (hsubset hb) c (hsubset hc)

/-- A list has one permutation in strictly ascending order. -/
theorem eq_of_perm_of_strict {values' : List α} (hperm : values.Perm values')
    (hasymm : ∀ a b, r a b → ¬ r b a) (h : values.Pairwise r)
    (h' : values'.Pairwise r) : values = values' :=
  hperm.eq_of_pairwise (fun a b _ _ hab hba => absurd hba (hasymm a b hab)) h h'

variable [DecidableRel r]

theorem pairwise_orderedInsert {a : α} (h : TotalOrderOn r (a :: values))
    (hvalues : values.Pairwise r) : (values.orderedInsert r a).Pairwise r := by
  induction values with
  | nil => exact List.pairwise_singleton r a
  | cons b values ih =>
      have ha : a ∈ a :: b :: values := List.mem_cons_self
      have hb : b ∈ a :: b :: values := by simp
      obtain ⟨hle, hrest⟩ := List.pairwise_cons.mp hvalues
      rw [List.orderedInsert_cons]
      split
      next hab =>
        refine List.pairwise_cons.mpr ⟨fun c hc => ?_, hvalues⟩
        rcases List.mem_cons.mp hc with rfl | hmem
        · exact hab
        · exact h.trans a ha b hb c (List.mem_cons_of_mem a hc) hab (hle c hmem)
      next hab =>
        have hsmaller : TotalOrderOn r (a :: values) := h.subset (by simp)
        refine List.pairwise_cons.mpr ⟨fun c hc => ?_, ih hsmaller hrest⟩
        rcases (List.mem_orderedInsert r).mp hc with rfl | hmem
        · exact (h.total c ha b hb).resolve_left hab
        · exact hle c hmem

theorem pairwise_insertionSort (h : TotalOrderOn r values) :
    (values.insertionSort r).Pairwise r := by
  induction values with
  | nil => exact .nil
  | cons a values ih =>
      have hperm := List.perm_insertionSort r values
      refine pairwise_orderedInsert (h.subset ?_) (ih (h.subset (by simp)))
      exact (hperm.cons a).subset

end Foundation

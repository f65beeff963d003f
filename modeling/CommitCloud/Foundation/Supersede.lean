import Mathlib.Data.Set.Lattice
import Mathlib.Order.CompletePartialOrder
import Mathlib.Tactic.Tauto

/-!
# Superseding heads

An update of a set of heads names the heads that a new one replaces.  It is
dropped when all heads it names are gone.  Two updates of which neither
touches what the other names have the same effect in either order.
-/

namespace Foundation

variable {α : Type*} {heads old old' : Set α} {new new' : α}

/-- The update names no head, or one that is still there. -/
def Applies (heads old : Set α) : Prop := old = ∅ ∨ (heads ∩ old).Nonempty

open Classical in
noncomputable def supersede (heads old : Set α) (new : α) : Set α :=
  if Applies heads old then insert new (heads \ old) else heads

theorem supersede_of_applies (h : Applies heads old) :
    supersede heads old new = insert new (heads \ old) := if_pos h

theorem supersede_of_not_applies (h : ¬ Applies heads old) :
    supersede heads old new = heads := if_neg h

theorem supersede_nonempty (h : heads.Nonempty) :
    (supersede heads old new).Nonempty := by
  by_cases happlies : Applies heads old
  · rw [supersede_of_applies happlies]
    exact Set.insert_nonempty new _
  · rwa [supersede_of_not_applies happlies]

/-- An update does not decide whether another one applies. -/
theorem applies_supersede_iff (hold : Disjoint old old') (hnew : new ∉ old') :
    Applies (supersede heads old new) old' ↔ Applies heads old' := by
  by_cases happlies : Applies heads old
  · have hinter : insert new (heads \ old) ∩ old' = heads ∩ old' := by
      rw [Set.insert_inter_of_notMem hnew]
      ext x
      have hdisjoint : x ∈ old' → x ∉ old := fun hx' hx =>
        Set.disjoint_left.mp hold hx hx'
      simp only [Set.mem_inter_iff, Set.mem_sdiff]
      tauto
    rw [supersede_of_applies happlies, Applies, Applies, hinter]
  · rw [supersede_of_not_applies happlies]

theorem supersede_comm (hold : Disjoint old old') (hnew : new ∉ old')
    (hnew' : new' ∉ old) :
    supersede (supersede heads old new) old' new' =
      supersede (supersede heads old' new') old new := by
  have happlies : Applies (supersede heads old new) old' ↔ Applies heads old' :=
    applies_supersede_iff hold hnew
  have happlies' : Applies (supersede heads old' new') old ↔ Applies heads old :=
    applies_supersede_iff hold.symm hnew'
  by_cases h : Applies heads old
  · by_cases h' : Applies heads old'
    · -- both replace their old heads, and neither new head is an old one
      rw [supersede_of_applies (happlies.mpr h'),
        supersede_of_applies (happlies'.mpr h), supersede_of_applies h,
        supersede_of_applies h', Set.insert_sdiff_of_notMem _ hnew,
        Set.insert_sdiff_of_notMem _ hnew', Set.sdiff_sdiff_comm,
        Set.insert_comm]
    · rw [supersede_of_not_applies (mt happlies.mp h'),
        supersede_of_not_applies h']
  · rw [supersede_of_not_applies h, supersede_of_not_applies (mt happlies'.mp h)]

end Foundation

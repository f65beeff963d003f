import Mathlib.Data.List.Basic
import Mathlib.Logic.Relation

/-!
# Covering a node by heads

In a graph given by its parent relation, a node is covered by a list of heads
when it is one of them or an ancestor of one.  Replacing a head list keeps what
was covered as soon as every old head is covered by the new list.
-/

namespace Foundation

variable {α : Type*}

/-- `parent p c` reads: `p` is a parent of `c`. -/
def Covered (parent : α → α → Prop) (heads : List α) (x : α) : Prop :=
  ∃ head ∈ heads, Relation.ReflTransGen parent x head

variable {parent parent' : α → α → Prop} {heads heads' : List α} {x : α}

theorem Covered.of_mem (h : x ∈ heads) : Covered parent heads x :=
  ⟨x, h, .refl⟩

theorem Covered.replace (hcovered : Covered parent heads x)
    (hheads : ∀ head ∈ heads, Covered parent heads' head) :
    Covered parent heads' x := by
  obtain ⟨head, hmem, hbelow⟩ := hcovered
  obtain ⟨head', hmem', hbelow'⟩ := hheads head hmem
  exact ⟨head', hmem', hbelow.trans hbelow'⟩

theorem Covered.mono (hparent : ∀ p c, parent p c → parent' p c)
    (hcovered : Covered parent heads x) : Covered parent' heads x := by
  obtain ⟨head, hmem, hbelow⟩ := hcovered
  exact ⟨head, hmem, Relation.ReflTransGen.mono hparent _ _ hbelow⟩

theorem Covered.mem_of_closed (closed : α → Prop)
    (hcovered : Covered parent heads x) (hheads : ∀ head ∈ heads, closed head)
    (hparents : ∀ p c, parent p c → closed c → closed p) : closed x := by
  obtain ⟨head, hmem, hbelow⟩ := hcovered
  induction hbelow using Relation.ReflTransGen.head_induction_on with
  | refl => exact hheads head hmem
  | head hedge _ ih => exact hparents _ _ hedge ih

end Foundation

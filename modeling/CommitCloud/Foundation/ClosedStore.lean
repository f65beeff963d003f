import Mathlib.Logic.Relation

/-!
# Stores whose references hold

The values of a store name keys.  A store is closed if every key that a value
names can be read; then so can every key that is reached by following names.  A
store stays closed as it grows by values that name what can be read already.
-/

namespace Foundation

variable {κ ν : Type*}

/-- `read` gives the value under a key; `names` lists the keys of a value. -/
def ClosedStore (read : κ → Option ν) (names : ν → List κ) : Prop :=
  ∀ key v, read key = some v → ∀ key' ∈ names v, (read key').isSome

/-- The value under the first key names the second one. -/
def Refers (read : κ → Option ν) (names : ν → List κ) (key key' : κ) : Prop :=
  ∃ v, read key = some v ∧ key' ∈ names v

namespace ClosedStore

variable {read read' : κ → Option ν} {names : ν → List κ} {key key' : κ}

theorem isSome_of_reached (h : ClosedStore read names) (hkey : (read key).isSome)
    (hreached : Relation.ReflTransGen (Refers read names) key key') :
    (read key').isSome := by
  induction hreached with
  | refl => exact hkey
  | tail _ hrefers _ =>
      obtain ⟨v, hread, hnames⟩ := hrefers
      exact h _ v hread _ hnames

/-- What a store may grow by without becoming open. -/
def Grows (read read' : κ → Option ν) (names : ν → List κ) : Prop :=
  ∀ key, read' key = read key ∨
    ∃ v, read' key = some v ∧ ∀ key' ∈ names v, (read key').isSome

theorem Grows.isSome (h : Grows read read' names) (hkey : (read key).isSome) :
    (read' key).isSome := by
  rcases h key with hkept | ⟨v, hnew, -⟩
  · rwa [hkept]
  · rw [hnew]
    rfl

theorem grow (h : ClosedStore read names) (hgrows : Grows read read' names) :
    ClosedStore read' names := by
  intro key v hread key' hnames
  apply hgrows.isSome
  rcases hgrows key with hkept | ⟨v', hnew, hpresent⟩
  · exact h key v (hkept ▸ hread) key' hnames
  · obtain rfl := Option.some.inj (hread.symm.trans hnew)
    exact hpresent key' hnames

end ClosedStore

end Foundation

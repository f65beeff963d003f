import Mathlib.Logic.Function.Basic

/-!
# Tables

A `Table` is a finite map of which only lookups are observed, so it is the
function that looks a key up.  `Nested` tables hold one table for each outer
key; an outer key gets its inner table with the first insertion under it.
-/

namespace Foundation

variable {κ ι ν : Type*}

abbrev Table (κ ν : Type*) := κ → Option ν

namespace Table

def empty : Table κ ν := fun _ => none

theorem forall_empty {p : κ → ν → Prop} (key : κ) (v : ν)
    (h : (empty : Table κ ν) key = some v) : p key v := by
  cases h

variable [DecidableEq κ]

def insert (t : Table κ ν) (key : κ) (value : ν) : Table κ ν :=
  Function.update t key (some value)

@[simp] theorem insert_self (t : Table κ ν) (key : κ) (value : ν) :
    t.insert key value key = some value :=
  Function.update_self ..

@[simp] theorem insert_of_ne {key key' : κ} (h : key' ≠ key) (t : Table κ ν)
    (value : ν) : t.insert key value key' = t key' :=
  Function.update_of_ne h ..

@[simp] theorem insert_insert (t : Table κ ν) (key : κ) (value value' : ν) :
    (t.insert key value).insert key value' = t.insert key value' :=
  Function.update_idem ..

theorem insert_eq_self {t : Table κ ν} {key : κ} {value : ν}
    (h : t key = some value) : t.insert key value = t := by
  rw [insert, ← h, Function.update_eq_self]

/-- A property of all entries extends to one that is inserted. -/
theorem forall_insert {t : Table κ ν} {p : κ → ν → Prop}
    (h : ∀ key v, t key = some v → p key v) {key : κ} {value : ν}
    (hvalue : p key value) (key' : κ) (v : ν)
    (hentry : t.insert key value key' = some v) : p key' v := by
  by_cases hkey : key' = key
  · subst hkey
    rw [insert_self] at hentry
    exact Option.some.inj hentry ▸ hvalue
  · rw [insert_of_ne hkey] at hentry
    exact h key' v hentry

/-- Tables that are related entry by entry stay so. -/
theorem rel_insert {ν' : Type*} {t : Table κ ν} {t' : Table κ ν'} {r : κ → ν → ν' → Prop}
    (h : ∀ key, Option.Rel (r key) (t key) (t' key)) {key : κ} {v : ν} {v' : ν'}
    (hvalue : r key v v') (key' : κ) :
    Option.Rel (r key') (t.insert key v key') (t'.insert key v' key') := by
  by_cases hkey : key' = key
  · subst hkey
    rw [insert_self, insert_self]
    exact .some hvalue
  · rw [insert_of_ne hkey, insert_of_ne hkey]
    exact h key'

/-- Defaults stay behind what is inserted. -/
theorem insert_or (t default : Table κ ν) (key : κ) (value : ν) :
    (fun key' => (t.insert key value key').or (default key')) =
      Table.insert (fun key' => (t key').or (default key')) key value := by
  funext key'
  by_cases hkey : key' = key
  · simp [hkey]
  · simp [hkey]

end Table

abbrev Nested (ι κ ν : Type*) := Table ι (Table κ ν)

namespace Nested

def lookup (t : Nested ι κ ν) (outer : ι) (key : κ) : Option ν :=
  (t outer).bind fun inner => inner key

@[simp] theorem lookup_empty (outer : ι) (key : κ) :
    lookup (Table.empty : Nested ι κ ν) outer key = none := rfl

variable [DecidableEq ι] [DecidableEq κ]

/-- `t.entry(outer).or_default().insert(key, value)` -/
def put (t : Nested ι κ ν) (outer : ι) (key : κ) (value : ν) : Nested ι κ ν :=
  t.insert outer (((t outer).getD Table.empty).insert key value)

@[simp] theorem lookup_put_self (t : Nested ι κ ν) (outer : ι) (key : κ)
    (value : ν) : (t.put outer key value).lookup outer key = some value := by
  simp [lookup, put]

theorem lookup_put (t : Nested ι κ ν) (outer : ι) (key : κ) (value : ν)
    (outer' : ι) (key' : κ) :
    (t.put outer key value).lookup outer' key' =
      if outer' = outer ∧ key' = key then some value
      else t.lookup outer' key' := by
  by_cases houter : outer' = outer
  · subst houter
    by_cases hkey : key' = key
    · subst hkey
      simp
    · cases h : t outer' <;> simp [lookup, put, hkey, h, Table.empty]
  · simp [lookup, put, houter]

theorem put_eq_self {t : Nested ι κ ν} {outer : ι} {key : κ} {value : ν}
    (h : t.lookup outer key = some value) : t.put outer key value = t := by
  obtain ⟨inner, houter, hinner⟩ := Option.bind_eq_some_iff.mp h
  rw [put, houter, Option.getD_some, Table.insert_eq_self hinner,
    Table.insert_eq_self houter]

/-- An entry stays unless another value is put in its place. -/
theorem lookup_put_of_kept {t : Nested ι κ ν} {outer outer' : ι} {key key' : κ}
    {value value' : ν} (h : t.lookup outer key = some value)
    (hkept : ¬ (outer' = outer ∧ key' = key ∧ value' ≠ value)) :
    (t.put outer' key' value').lookup outer key = some value := by
  rw [lookup_put]
  split
  next hsame =>
    obtain ⟨rfl, rfl⟩ := hsame
    simpa using hkept
  next => exact h

/-- Under its outer key an insertion is one into the inner table. -/
theorem lookup_put_outer (t : Nested ι κ ν) (outer : ι) (key : κ) (value : ν) :
    (t.put outer key value).lookup outer =
      Table.insert (t.lookup outer) key value := by
  funext key'
  by_cases hkey : key' = key
  · simp [hkey]
  · simp [lookup_put, hkey]

end Nested

end Foundation

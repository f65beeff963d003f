import Mathlib.Data.List.Nodup
import Mathlib.Data.List.Dedup
import Mathlib.Data.List.Perm.Basic
import Mathlib.Data.List.Sort

/-!
# Maps and sets with an iteration order

A `HashMap` holds each key once and lists its entries in an order that is not
part of its value: two maps are `Equiv` when their entries are permutations of
each other.  A `BTreeMap` lists its entries by ascending key, so that equal maps
are equal structures.  `collect` inserts a sequence of entries one by one; the
last value given for a key is the one kept.
-/

namespace Foundation

variable {κ ν : Type*}

/-! ## Association lists with distinct keys -/

section Lookup

variable [DecidableEq κ]

theorem lookup_cons_eq (entry : κ × ν) (entries : List (κ × ν)) (key : κ) :
    (entry :: entries).lookup key =
      if key = entry.1 then some entry.2 else entries.lookup key := by
  obtain ⟨key', value⟩ := entry
  by_cases hkey : key = key'
  · subst hkey
    simp
  · have hbeq : (key == key') = false := by simpa using hkey
    simp [List.lookup_cons, hbeq, hkey]

theorem lookup_eq_some_iff_mem {entries : List (κ × ν)}
    (hnodup : (entries.map Prod.fst).Nodup) {key : κ} {value : ν} :
    entries.lookup key = some value ↔ (key, value) ∈ entries := by
  induction entries with
  | nil => simp
  | cons entry entries ih =>
      obtain ⟨key', value'⟩ := entry
      simp only [List.map_cons, List.nodup_cons] at hnodup
      obtain ⟨hfresh, hrest⟩ := hnodup
      rw [lookup_cons_eq, List.mem_cons, Prod.mk.injEq]
      by_cases hkey : key = key'
      · subst hkey
        have hnot : (key, value) ∉ entries := fun hmem =>
          hfresh (List.mem_map.mpr ⟨_, hmem, rfl⟩)
        simp [hnot, eq_comm]
      · simp [hkey, ih hrest]

theorem lookup_eq_of_perm {first second : List (κ × ν)}
    (hnodup : (first.map Prod.fst).Nodup) (hperm : first.Perm second)
    (key : κ) : first.lookup key = second.lookup key := by
  have hnodup' : (second.map Prod.fst).Nodup :=
    (hperm.map Prod.fst).nodup_iff.mp hnodup
  apply Option.ext
  intro value
  rw [lookup_eq_some_iff_mem hnodup, lookup_eq_some_iff_mem hnodup',
    hperm.mem_iff]

theorem perm_of_lookup_eq {first second : List (κ × ν)}
    (hfirst : (first.map Prod.fst).Nodup)
    (hsecond : (second.map Prod.fst).Nodup)
    (h : ∀ key, first.lookup key = second.lookup key) :
    first.Perm second := by
  refine (List.perm_ext_iff_of_nodup (List.Nodup.of_map _ hfirst)
    (List.Nodup.of_map _ hsecond)).mpr ?_
  rintro ⟨key, value⟩
  rw [← lookup_eq_some_iff_mem hfirst, ← lookup_eq_some_iff_mem hsecond, h]

theorem lookup_map {κ' ν' : Type*} [DecidableEq κ'] {f : κ → κ'} {g : ν → ν'}
    (hf : Function.Injective f) (entries : List (κ × ν)) (key : κ) :
    (entries.map fun entry => (f entry.1, g entry.2)).lookup (f key) =
      (entries.lookup key).map g := by
  induction entries with
  | nil => rfl
  | cons entry entries ih =>
      rw [List.map_cons, lookup_cons_eq, lookup_cons_eq, ih]
      by_cases hkey : key = entry.1
      · simp [hkey]
      · simp [hkey, hf.ne hkey]

/-- Of the values inserted one by one under a key, the last one is kept. -/
theorem get_foldl_insert {μ : Type*} {get : μ → κ → Option ν}
    {insert : μ → κ → ν → μ}
    (hinsert : ∀ m key value key', get (insert m key value) key' =
      if key' = key then some value else get m key')
    (entries : List (κ × ν)) (m : μ) (key : κ) :
    get (entries.foldl (fun m entry => insert m entry.1 entry.2) m) key =
      (entries.reverse.lookup key).or (get m key) := by
  induction entries generalizing m with
  | nil => rfl
  | cons entry entries ih =>
      rw [List.foldl_cons, ih, hinsert, List.reverse_cons,
        List.lookup_append, lookup_cons_eq, List.lookup_nil, Option.or_assoc]
      by_cases hkey : key = entry.1 <;> simp [hkey]

end Lookup

/-! ## Hash maps -/

structure HashMap (κ ν : Type*) where
  entries : List (κ × ν)
  nodupKeys : (entries.map Prod.fst).Nodup
  deriving DecidableEq

namespace HashMap

def Equiv (first second : HashMap κ ν) : Prop :=
  first.entries.Perm second.entries

@[refl] theorem Equiv.refl (m : HashMap κ ν) : m.Equiv m := .rfl

@[symm] theorem Equiv.symm {first second : HashMap κ ν}
    (h : first.Equiv second) : second.Equiv first :=
  List.Perm.symm h

@[trans] theorem Equiv.trans {first second third : HashMap κ ν}
    (h : first.Equiv second) (h' : second.Equiv third) : first.Equiv third :=
  List.Perm.trans h h'

def empty : HashMap κ ν := ⟨[], List.nodup_nil⟩

instance [DecidableEq κ] [DecidableEq ν] (first second : HashMap κ ν) :
    Decidable (first.Equiv second) :=
  inferInstanceAs (Decidable (first.entries.Perm second.entries))

variable [DecidableEq κ]

def get (m : HashMap κ ν) (key : κ) : Option ν := m.entries.lookup key

def insert (m : HashMap κ ν) (key : κ) (value : ν) : HashMap κ ν where
  entries := m.entries.filter (fun entry => entry.1 ≠ key) ++ [(key, value)]
  nodupKeys := by
    have hkept : ((m.entries.filter fun entry => entry.1 ≠ key).map
        Prod.fst).Nodup :=
      m.nodupKeys.sublist (List.filter_sublist.map _)
    simp only [List.map_append, List.map_cons, List.map_nil]
    refine hkept.append (List.nodup_singleton key) ?_
    simp [List.disjoint_singleton]

def collect (entries : List (κ × ν)) : HashMap κ ν :=
  entries.foldl (fun m entry => m.insert entry.1 entry.2) empty

theorem equiv_iff_get {first second : HashMap κ ν} :
    first.Equiv second ↔ ∀ key, first.get key = second.get key :=
  ⟨fun h => lookup_eq_of_perm first.nodupKeys h,
    perm_of_lookup_eq first.nodupKeys second.nodupKeys⟩

theorem mem_entries_iff {m : HashMap κ ν} {key : κ} {value : ν} :
    (key, value) ∈ m.entries ↔ m.get key = some value :=
  (lookup_eq_some_iff_mem m.nodupKeys).symm

theorem get_insert (m : HashMap κ ν) (key : κ) (value : ν) (key' : κ) :
    (m.insert key value).get key' =
      if key' = key then some value else m.get key' := by
  apply Option.ext
  intro value'
  rw [← mem_entries_iff]
  split
  next h => simp [insert, h, eq_comm]
  next h => simp [insert, h, mem_entries_iff]

theorem get_collect (entries : List (κ × ν)) (key : κ) :
    (collect entries).get key = entries.reverse.lookup key := by
  rw [collect, get_foldl_insert get_insert]
  simp [get, empty]

theorem get_collect_of_nodup {entries : List (κ × ν)}
    (hnodup : (entries.map Prod.fst).Nodup) (key : κ) :
    (collect entries).get key = entries.lookup key := by
  rw [get_collect]
  exact (lookup_eq_of_perm hnodup (List.reverse_perm entries).symm key).symm

theorem collect_equiv_of_nodup (m : HashMap κ ν) :
    (collect m.entries).Equiv m :=
  equiv_iff_get.mpr fun key => get_collect_of_nodup m.nodupKeys key

end HashMap

/-! ## Ordered maps -/

structure BTreeMap (κ ν : Type*) [LinearOrder κ] where
  entries : List (κ × ν)
  sorted : entries.Pairwise fun a b => a.1 < b.1
  deriving DecidableEq

namespace BTreeMap

variable [LinearOrder κ]

def empty : BTreeMap κ ν := ⟨[], .nil⟩

def insertEntry (key : κ) (value : ν) : List (κ × ν) → List (κ × ν)
  | [] => [(key, value)]
  | entry :: entries =>
      if key < entry.1 then (key, value) :: entry :: entries
      else if key = entry.1 then (key, value) :: entries
      else entry :: insertEntry key value entries

theorem mem_insertEntry_key {key : κ} {value : ν} {entries : List (κ × ν)}
    {entry : κ × ν} (h : entry ∈ insertEntry key value entries) :
    entry = (key, value) ∨ entry ∈ entries := by
  induction entries with
  | nil => exact .inl (List.mem_singleton.mp h)
  | cons first entries ih =>
      simp only [insertEntry] at h
      split at h
      · exact List.mem_cons.mp h
      split at h
      · rcases List.mem_cons.mp h with h | h
        · exact .inl h
        · exact .inr (List.mem_cons_of_mem _ h)
      · rcases List.mem_cons.mp h with h | h
        · exact .inr (h ▸ List.mem_cons_self)
        · exact (ih h).imp_right (List.mem_cons_of_mem _)

theorem sorted_insertEntry {key : κ} {value : ν} {entries : List (κ × ν)}
    (h : entries.Pairwise fun a b => a.1 < b.1) :
    (insertEntry key value entries).Pairwise fun a b => a.1 < b.1 := by
  induction entries with
  | nil => simp [insertEntry]
  | cons first entries ih =>
      obtain ⟨hfirst, hrest⟩ := List.pairwise_cons.mp h
      simp only [insertEntry]
      split
      next hlt =>
        refine List.pairwise_cons.mpr ⟨fun entry hmem => ?_, h⟩
        rcases List.mem_cons.mp hmem with rfl | hmem
        · exact hlt
        · exact hlt.trans (hfirst entry hmem)
      next hge =>
        split
        next heq => exact List.pairwise_cons.mpr ⟨heq ▸ hfirst, hrest⟩
        next hne =>
          refine List.pairwise_cons.mpr ⟨fun entry hmem => ?_, ih hrest⟩
          rcases mem_insertEntry_key hmem with rfl | hmem
          · exact lt_of_le_of_ne (not_lt.mp hge) (Ne.symm hne)
          · exact hfirst entry hmem

def insert (m : BTreeMap κ ν) (key : κ) (value : ν) : BTreeMap κ ν :=
  ⟨insertEntry key value m.entries, sorted_insertEntry m.sorted⟩

def get (m : BTreeMap κ ν) (key : κ) : Option ν := m.entries.lookup key

def collect (entries : List (κ × ν)) : BTreeMap κ ν :=
  entries.foldl (fun m entry => m.insert entry.1 entry.2) empty

theorem nodupKeys (m : BTreeMap κ ν) : (m.entries.map Prod.fst).Nodup :=
  List.pairwise_map.mpr (m.sorted.imp fun h => ne_of_lt h)

theorem mem_entries_iff {m : BTreeMap κ ν} {key : κ} {value : ν} :
    (key, value) ∈ m.entries ↔ m.get key = some value :=
  (lookup_eq_some_iff_mem m.nodupKeys).symm

theorem ext_get {first second : BTreeMap κ ν}
    (h : ∀ key, first.get key = second.get key) : first = second := by
  have hperm := perm_of_lookup_eq first.nodupKeys second.nodupKeys h
  cases first with
  | mk entries sorted =>
      cases second with
      | mk entries' sorted' =>
          have heq : entries = entries' :=
            hperm.eq_of_pairwise
              (fun a b _ _ hab hba => absurd hba (lt_asymm hab)) sorted sorted'
          subst heq
          rfl

private theorem lookup_insertEntry (key : κ) (value : ν)
    (entries : List (κ × ν)) (key' : κ) :
    (insertEntry key value entries).lookup key' =
      if key' = key then some value else entries.lookup key' := by
  induction entries with
  | nil => simp [insertEntry, lookup_cons_eq]
  | cons first entries ih =>
      simp only [insertEntry]
      split
      next => rw [lookup_cons_eq]
      next =>
        split
        next heq =>
          rw [lookup_cons_eq, lookup_cons_eq, ← heq]
          by_cases hkey : key' = key <;> simp [hkey]
        next hne =>
          rw [lookup_cons_eq, lookup_cons_eq, ih]
          by_cases hkey : key' = key
          · subst hkey
            simp [hne]
          · simp [hkey]

theorem get_insert (m : BTreeMap κ ν) (key : κ) (value : ν) (key' : κ) :
    (m.insert key value).get key' =
      if key' = key then some value else m.get key' :=
  lookup_insertEntry key value m.entries key'

theorem insert_insert (m : BTreeMap κ ν) (key : κ) (value value' : ν) :
    (m.insert key value).insert key value' = m.insert key value' := by
  apply ext_get
  intro key'
  rw [get_insert, get_insert, get_insert]
  split <;> rfl

/-- Insertions under different keys may trade places. -/
theorem insert_comm {key key' : κ} (hne : key ≠ key') (m : BTreeMap κ ν)
    (value value' : ν) :
    (m.insert key value).insert key' value' =
      (m.insert key' value').insert key value := by
  apply ext_get
  intro key''
  rw [get_insert, get_insert, get_insert, get_insert]
  by_cases hkey : key'' = key
  · subst hkey
    simp [hne]
  · simp [hkey]

theorem get_collect_of_nodup {entries : List (κ × ν)}
    (hnodup : (entries.map Prod.fst).Nodup) (key : κ) :
    (collect entries).get key = entries.lookup key := by
  rw [collect, get_foldl_insert get_insert,
    lookup_eq_of_perm hnodup (List.reverse_perm entries).symm key]
  simp [get, empty]

theorem collect_entries (m : BTreeMap κ ν) : collect m.entries = m :=
  ext_get fun key => get_collect_of_nodup m.nodupKeys key

/-- What a function makes of the values determines what it makes of the entries. -/
theorem map_entries_eq {ν' : Type*} {first second : BTreeMap κ ν} {f : ν → ν'}
    (h : ∀ key, (first.get key).map f = (second.get key).map f) :
    first.entries.map (fun entry => (entry.1, f entry.2)) =
      second.entries.map (fun entry => (entry.1, f entry.2)) := by
  have hsorted (m : BTreeMap κ ν) :
      (m.entries.map fun entry => (entry.1, f entry.2)).Pairwise
        fun a b => a.1 < b.1 :=
    List.pairwise_map.mpr m.sorted
  have hget (m : BTreeMap κ ν) (key : κ) :
      (⟨_, hsorted m⟩ : BTreeMap κ ν').get key = (m.get key).map f :=
    lookup_map Function.injective_id m.entries key
  have heq : (⟨_, hsorted first⟩ : BTreeMap κ ν') = ⟨_, hsorted second⟩ :=
    ext_get fun key => by rw [hget, hget, h]
  exact congrArg BTreeMap.entries heq

end BTreeMap

/-! ## From one kind of map to the other -/

section Convert

variable {ν' : Type*}

theorem nodupKeys_mapValues {entries : List (κ × ν)}
    (hnodup : (entries.map Prod.fst).Nodup) (f : ν → ν') :
    ((entries.map fun entry => (entry.1, f entry.2)).map Prod.fst).Nodup := by
  rw [List.map_map]
  exact hnodup

theorem BTreeMap.get_collect_hashMap [LinearOrder κ] (m : HashMap κ ν)
    (f : ν → ν') (key : κ) :
    (BTreeMap.collect (m.entries.map fun entry => (entry.1, f entry.2))).get key =
      (m.get key).map f := by
  rw [BTreeMap.get_collect_of_nodup (nodupKeys_mapValues m.nodupKeys f)]
  exact lookup_map Function.injective_id m.entries key

theorem HashMap.get_collect_bTreeMap [LinearOrder κ] (m : BTreeMap κ ν)
    (f : ν → ν') (key : κ) :
    (HashMap.collect (m.entries.map fun entry => (entry.1, f entry.2))).get key =
      (m.get key).map f := by
  rw [HashMap.get_collect_of_nodup (nodupKeys_mapValues m.nodupKeys f)]
  exact lookup_map Function.injective_id m.entries key

/-- Sorting forgets the iteration order. -/
theorem BTreeMap.collect_eq_of_equiv [LinearOrder κ] {first second : HashMap κ ν}
    (h : first.Equiv second) : collect first.entries = collect second.entries := by
  apply ext_get
  intro key
  rw [get_collect_of_nodup first.nodupKeys, get_collect_of_nodup second.nodupKeys]
  exact HashMap.equiv_iff_get.mp h key

theorem BTreeMap.map_collect_eq [LinearOrder κ] {first second : HashMap κ ν}
    {f : ν → ν'} (h : ∀ key, (first.get key).map f = (second.get key).map f) :
    (collect first.entries).entries.map (fun entry => (entry.1, f entry.2)) =
      (collect second.entries).entries.map (fun entry => (entry.1, f entry.2)) := by
  apply map_entries_eq
  intro key
  rw [get_collect_of_nodup first.nodupKeys, get_collect_of_nodup second.nodupKeys]
  exact h key

end Convert

/-! ## Hash sets -/

structure HashSet (α : Type*) where
  elements : List α
  nodup : elements.Nodup
  deriving DecidableEq

namespace HashSet

variable {α : Type*}

def Equiv (first second : HashSet α) : Prop :=
  ∀ x, x ∈ first.elements ↔ x ∈ second.elements

theorem Equiv.perm {first second : HashSet α} (h : first.Equiv second) :
    first.elements.Perm second.elements :=
  (List.perm_ext_iff_of_nodup first.nodup second.nodup).mpr h

def collect [DecidableEq α] (elements : List α) : HashSet α :=
  ⟨elements.dedup, elements.nodup_dedup⟩

@[simp] theorem mem_collect [DecidableEq α] {elements : List α} {x : α} :
    x ∈ (collect elements).elements ↔ x ∈ elements :=
  List.mem_dedup

end HashSet

end Foundation

import CommitCloud.Gix

/-!
# The order of tree entries

Git compares two entries by the bytes after the common part of their names.
For names without a slash this is the order of their sort keys, where the name
of a tree continues with a slash, and so a total order.
-/

namespace CommitCloud.Gix

open Foundation

section Lexicographic

variable {α : Type} [LinearOrder α]

theorem cmp_list_lt_iff {xs ys : List α} : cmp xs ys = .lt ↔ xs < ys := by
  unfold cmp cmpUsing
  split
  next hlt => exact iff_of_true rfl hlt
  next hlt =>
    refine iff_of_false ?_ hlt
    split <;> simp

theorem cmp_list_swap (xs ys : List α) : (cmp xs ys).swap = cmp ys xs :=
  cmp_swap xs ys

theorem cmp_list_gt_iff {xs ys : List α} : cmp xs ys = .gt ↔ ys < xs := by
  rw [← cmp_list_lt_iff, ← cmp_list_swap ys xs, Ordering.swap_eq_gt]

theorem cmp_list_self (xs : List α) : cmp xs xs = .eq := by
  unfold cmp cmpUsing
  rw [if_neg (List.lt_irrefl xs), if_neg (List.lt_irrefl xs)]

theorem cmp_nil_cons (y : α) (ys : List α) : cmp [] (y :: ys) = .lt :=
  cmp_list_lt_iff.mpr (List.nil_lt_cons y ys)

theorem cmp_cons_nil (x : α) (xs : List α) : cmp (x :: xs) [] = .gt :=
  cmp_list_gt_iff.mpr (List.nil_lt_cons x xs)

theorem cmp_cons (x y : α) (xs ys : List α) :
    cmp (x :: xs) (y :: ys) = (cmp x y).then (cmp xs ys) := by
  rcases lt_trichotomy x y with hlt | rfl | hgt
  · rw [(cmp_eq_lt_iff x y).mpr hlt]
    exact cmp_list_lt_iff.mpr (List.cons_lt_cons_iff.mpr (.inl hlt))
  · rw [cmp_self_eq_eq, Ordering.eq_then]
    rcases lt_trichotomy xs ys with hlt | rfl | hgt
    · rw [cmp_list_lt_iff.mpr hlt]
      exact cmp_list_lt_iff.mpr (List.cons_lt_cons_iff.mpr (.inr ⟨rfl, hlt⟩))
    · rw [cmp_list_self, cmp_list_self]
    · rw [cmp_list_gt_iff.mpr hgt]
      exact cmp_list_gt_iff.mpr (List.cons_lt_cons_iff.mpr (.inr ⟨rfl, hgt⟩))
  · rw [(cmp_eq_gt_iff x y).mpr hgt]
    exact cmp_list_gt_iff.mpr (List.cons_lt_cons_iff.mpr (.inl hgt))

theorem cmp_cons_of_ne {x y : α} (hne : x ≠ y) (xs ys : List α) :
    cmp (x :: xs) (y :: ys) = cmp x y := by
  rw [cmp_cons]
  cases hcmp : cmp x y with
  | eq => exact absurd ((cmp_eq_eq_iff x y).mp hcmp) hne
  | lt => rfl
  | gt => rfl

end Lexicographic

/-- What follows an entry's name: a slash if it is a tree. -/
def Entry.next (entry : Entry) : Option UInt8 :=
  if entry.mode = .tree then some 47 else none

def Entry.sortKey (entry : Entry) : Bytes := entry.filename ++ entry.next.toList

theorem compareNext_eq_cmp (next next' : Option UInt8) :
    compareNext next next' = cmp next.toList next'.toList := by
  cases next with
  | none =>
      cases next' with
      | none => rfl
      | some b => exact (cmp_nil_cons b []).symm
  | some a =>
      cases next' with
      | none => exact (cmp_cons_nil a []).symm
      | some b =>
          rw [Option.toList_some, Option.toList_some, cmp_cons, cmp_list_self,
            Ordering.then_eq]
          rfl

/-- Names are compared up to the shorter one's end, then by one more byte. -/
theorem compare_names {name name' : Bytes} {next next' : Option UInt8}
    (hname : 47 ∉ name) (hname' : 47 ∉ name') (hnext : ∀ b ∈ next, b = 47)
    (hnext' : ∀ b ∈ next', b = 47) :
    (cmp (name.take (min name.length name'.length))
        (name'.take (min name.length name'.length))).then
      (compareNext (name[min name.length name'.length]?.or next)
        (name'[min name.length name'.length]?.or next')) =
      cmp (name ++ next.toList) (name' ++ next'.toList) := by
  induction name generalizing name' with
  | nil =>
      cases name' with
      | nil => exact compareNext_eq_cmp next next'
      | cons b name' =>
          cases next with
          | none => exact (cmp_nil_cons b _).symm
          | some a =>
              -- the slash after a tree's name differs from every byte of a name
              obtain rfl := hnext a rfl
              have hne : 47 ≠ b := fun h => hname' (h ▸ List.mem_cons_self)
              exact (cmp_cons_of_ne hne [] _).symm
  | cons a name ih =>
      cases name' with
      | nil =>
          cases next' with
          | none => exact (cmp_cons_nil a _).symm
          | some b =>
              obtain rfl := hnext' b rfl
              have hne : a ≠ 47 := fun h => hname (h ▸ List.mem_cons_self)
              exact (cmp_cons_of_ne hne _ []).symm
      | cons b name' =>
          have hrest := ih (fun h => hname (List.mem_cons_of_mem _ h))
            fun h => hname' (List.mem_cons_of_mem _ h)
          rw [List.length_cons, List.length_cons, Nat.add_min_add_right,
            List.take_succ_cons, List.take_succ_cons, List.getElem?_cons_succ,
            List.getElem?_cons_succ, List.cons_append, List.cons_append, cmp_cons,
            cmp_cons, ← hrest, Ordering.then_assoc]

theorem Entry.compare_eq_cmp_sortKey {a b : Entry} (ha : 47 ∉ a.filename)
    (hb : 47 ∉ b.filename) : a.compare b = cmp a.sortKey b.sortKey := by
  have hnext (entry : Entry) : ∀ byte ∈ entry.next, byte = 47 := by
    intro byte hbyte
    unfold Entry.next at hbyte
    split at hbyte
    · exact (Option.some.inj hbyte).symm
    · cases hbyte
  exact compare_names ha hb (hnext a) (hnext b)

theorem Entry.filename_eq_of_sortKey {a b : Entry} (ha : 47 ∉ a.filename)
    (hb : 47 ∉ b.filename) (h : a.sortKey = b.sortKey) : a.filename = b.filename := by
  unfold sortKey next at h
  split at h <;> split at h
  · exact List.append_cancel_right h
  · rw [Option.toList_none, List.append_nil] at h
    exact absurd (h ▸ List.mem_append_right _ (List.mem_singleton_self 47)) hb
  · rw [Option.toList_none, List.append_nil] at h
    exact absurd (h ▸ List.mem_append_right _ (List.mem_singleton_self 47)) ha
  · exact List.append_cancel_right h

/-- On names without a slash, Git's order is a total order. -/
theorem Entry.totalOn_compare {entries : List Entry}
    (hnames : ∀ entry ∈ entries, 47 ∉ entry.filename) :
    TotalOn Entry.compare entries where
  swap a ha b hb := by
    rw [Entry.compare_eq_cmp_sortKey (hnames a ha) (hnames b hb),
      Entry.compare_eq_cmp_sortKey (hnames b hb) (hnames a ha), cmp_list_swap]
  trans a ha b hb c hc hab hbc := by
    rw [Entry.compare_eq_cmp_sortKey (hnames a ha) (hnames b hb), Ne,
      cmp_list_gt_iff, not_lt] at hab
    rw [Entry.compare_eq_cmp_sortKey (hnames b hb) (hnames c hc), Ne,
      cmp_list_gt_iff, not_lt] at hbc
    rw [Entry.compare_eq_cmp_sortKey (hnames a ha) (hnames c hc), Ne,
      cmp_list_gt_iff, not_lt]
    exact hab.trans hbc

end CommitCloud.Gix

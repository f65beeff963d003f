import Mathlib.Data.List.Basic

/-!
# Delimited text

A piece of text that does not contain a delimiter can be cut off in front of
the first delimiter, or behind the last one.  Text that may contain the
delimiter is quoted: an escape stands in front of what would be read otherwise.
-/

namespace Foundation

variable {α : Type*}

/-- Elements up to the first one that fails `p` are determined, and so is that one. -/
theorem append_cons_inj {p : α → Prop} {d d' : α}
    {first second rest rest' : List α} (hfirst : ∀ a ∈ first, p a)
    (hsecond : ∀ a ∈ second, p a) (hd : ¬ p d) (hd' : ¬ p d')
    (h : first ++ d :: rest = second ++ d' :: rest') :
    first = second ∧ d = d' ∧ rest = rest' := by
  induction first generalizing second with
  | nil =>
      cases second with
      | nil =>
          obtain ⟨rfl, rfl⟩ := List.cons.inj h
          exact ⟨rfl, rfl, rfl⟩
      | cons b second =>
          obtain ⟨rfl, -⟩ := List.cons.inj h
          exact absurd (hsecond d List.mem_cons_self) hd
  | cons a first ih =>
      cases second with
      | nil =>
          obtain ⟨rfl, -⟩ := List.cons.inj h
          exact absurd (hfirst a List.mem_cons_self) hd'
      | cons b second =>
          obtain ⟨rfl, htail⟩ := List.cons.inj h
          obtain ⟨rfl, hrest⟩ := ih (List.forall_mem_of_forall_mem_cons hfirst)
            (List.forall_mem_of_forall_mem_cons hsecond) htail
          exact ⟨rfl, hrest⟩

theorem delimited_inj {d : α} {first second rest rest' : List α}
    (hfirst : d ∉ first) (hsecond : d ∉ second)
    (h : first ++ d :: rest = second ++ d :: rest') :
    first = second ∧ rest = rest' := by
  obtain ⟨htext, -, hrest⟩ := append_cons_inj (p := (· ≠ d))
    (fun a ha => ne_of_mem_of_not_mem ha hfirst)
    (fun a ha => ne_of_mem_of_not_mem ha hsecond) (by simp) (by simp) h
  exact ⟨htext, hrest⟩

/-- Split at the last delimiter; `none` if there is none. -/
def splitLast [DecidableEq α] (d : α) : List α → Option (List α × List α)
  | [] => none
  | a :: text =>
      match splitLast d text with
      | some (before, after) => some (a :: before, after)
      | none => if a = d then some ([], text) else none

theorem splitLast_eq_none_iff [DecidableEq α] {d : α} {text : List α} :
    splitLast d text = none ↔ d ∉ text := by
  induction text with
  | nil => simp [splitLast]
  | cons a text ih =>
      cases h : splitLast d text with
      | some pair =>
          have hmem : d ∈ text := by
            by_contra hnot
            rw [ih.mpr hnot] at h
            cases h
          simp [splitLast, h, hmem]
      | none =>
          simp [splitLast, h, ih.mp h, eq_comm]

theorem splitLast_append [DecidableEq α] {d : α} {after : List α}
    (hafter : d ∉ after) (before : List α) :
    splitLast d (before ++ d :: after) = some (before, after) := by
  induction before with
  | nil => simp [splitLast, splitLast_eq_none_iff.mpr hafter]
  | cons a before ih => simp [splitLast, ih]

theorem splitLast_eq_some_iff [DecidableEq α] {d : α}
    {text before after : List α} :
    splitLast d text = some (before, after) ↔
      text = before ++ d :: after ∧ d ∉ after := by
  constructor
  · intro h
    induction text generalizing before with
    | nil => cases h
    | cons a text ih =>
        rw [splitLast] at h
        split at h
        next before' after' hsplit =>
          obtain ⟨rfl, rfl⟩ := Prod.mk.inj (Option.some.inj h)
          obtain ⟨rfl, hafter⟩ := ih hsplit
          exact ⟨rfl, hafter⟩
        next hnone =>
          split at h
          next ha =>
            obtain ⟨rfl, rfl⟩ := Prod.mk.inj (Option.some.inj h)
            exact ⟨by rw [ha, List.nil_append], splitLast_eq_none_iff.mp hnone⟩
          next => cases h
  · rintro ⟨rfl, hafter⟩
    exact splitLast_append hafter before

/-- `str::rsplit_once` for a one-character pattern. -/
def rsplitOnce (d : Char) (s : String) : Option (String × String) :=
  (splitLast d s.toList).map fun parts =>
    (String.ofList parts.1, String.ofList parts.2)

theorem rsplitOnce_eq_none_iff {d : Char} {s : String} :
    rsplitOnce d s = none ↔ d ∉ s.toList := by
  rw [rsplitOnce, Option.map_eq_none_iff, splitLast_eq_none_iff]

theorem rsplitOnce_eq_some_iff {d : Char} {s before after : String} :
    rsplitOnce d s = some (before, after) ↔
      s = before ++ String.singleton d ++ after ∧ d ∉ after.toList := by
  have hsplit : splitLast d s.toList = some (before.toList, after.toList) ↔ _ :=
    splitLast_eq_some_iff
  have htext : s = before ++ String.singleton d ++ after ↔
      s.toList = before.toList ++ d :: after.toList := by
    rw [← String.toList_inj]
    simp
  rw [htext, ← hsplit, rsplitOnce, Option.map_eq_some_iff]
  constructor
  · rintro ⟨⟨before', after'⟩, h, hparts⟩
    obtain ⟨rfl, rfl⟩ := Prod.mk.inj hparts
    simpa using h
  · intro h
    exact ⟨_, h, by simp⟩

/-! ## Quoted text -/

section Quoted

variable [DecidableEq α] (d e : α)

def escape (text : List α) : List α :=
  text.flatMap fun a => if a = d ∨ a = e then [e, a] else [a]

/-- Read up to the delimiter that is not escaped; the rest is behind it. -/
def unquote : List α → Option (List α × List α)
  | [] => none
  | a :: text =>
      if a = d then some ([], text)
      else if a = e then
        match text with
        | [] => none
        | b :: text => (unquote text).map (Prod.map (b :: ·) id)
      else (unquote text).map (Prod.map (a :: ·) id)

variable {d e}

theorem unquote_delimiter (text : List α) : unquote d e (d :: text) = some ([], text) := by
  rw [unquote.eq_def]
  simp

theorem unquote_escaped (hne : e ≠ d) (a : α) (text : List α) :
    unquote d e (e :: a :: text) = (unquote d e text).map (Prod.map (a :: ·) id) := by
  rw [unquote.eq_def]
  simp [hne]

theorem unquote_plain {a : α} (hd : a ≠ d) (he : a ≠ e) (text : List α) :
    unquote d e (a :: text) = (unquote d e text).map (Prod.map (a :: ·) id) := by
  rw [unquote.eq_def]
  simp [hd, he]

theorem unquote_escape (hne : e ≠ d) (text rest : List α) :
    unquote d e (escape d e text ++ d :: rest) = some (text, rest) := by
  induction text with
  | nil => exact unquote_delimiter rest
  | cons a text ih =>
      rw [escape, List.flatMap_cons, ← escape, List.append_assoc]
      split
      next =>
        rw [List.cons_append, List.singleton_append, unquote_escaped hne, ih]
        rfl
      next ha =>
        obtain ⟨had, hae⟩ := not_or.mp ha
        rw [List.singleton_append, unquote_plain had hae, ih]
        rfl

end Quoted

end Foundation

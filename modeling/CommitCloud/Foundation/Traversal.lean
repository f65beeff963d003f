import Mathlib.Data.List.Forall2

/-!
# Fallible traversals

Converting every element of a list fails if the conversion of one element
does; otherwise the results stand in the order of the elements.
-/

namespace Foundation

variable {α β γ ε : Type} {f : α → Except ε β} {elements : List α} {results : List β}

theorem mapM_eq_ok_iff : elements.mapM f = .ok results ↔
    List.Forall₂ (fun a b => f a = .ok b) elements results := by
  induction elements generalizing results with
  | nil =>
      rw [List.forall₂_nil_left_iff]
      constructor
      · rintro ⟨⟩
        rfl
      · rintro rfl
        rfl
  | cons a elements ih =>
      rw [List.mapM_cons, List.forall₂_cons_left_iff]
      cases hhead : f a with
      | error failure =>
          refine iff_of_false nofun ?_
          rintro ⟨b, -, hb, -⟩
          cases hb
      | ok b =>
          cases htail : elements.mapM f with
          | error failure =>
              refine iff_of_false nofun ?_
              rintro ⟨-, rest, -, hrest, -⟩
              cases htail.symm.trans (ih.mpr hrest)
          | ok rest =>
              constructor
              · rintro ⟨⟩
                exact ⟨b, rest, rfl, ih.mp htail, rfl⟩
              · rintro ⟨b', rest', hb, hrest, rfl⟩
                obtain rfl := Except.ok.inj hb
                obtain rfl := Except.ok.inj (htail.symm.trans (ih.mpr hrest))
                rfl

theorem exists_mapM_eq_ok_iff :
    (∃ results, elements.mapM f = .ok results) ↔
      ∀ a ∈ elements, ∃ b, f a = .ok b := by
  simp only [mapM_eq_ok_iff]
  induction elements with
  | nil => simp
  | cons a elements ih =>
      rw [List.forall_mem_cons, ← ih]
      constructor
      · rintro ⟨_, _ | ⟨hhead, htail⟩⟩
        exact ⟨⟨_, hhead⟩, _, htail⟩
      · rintro ⟨⟨b, hhead⟩, rest, htail⟩
        exact ⟨b :: rest, .cons hhead htail⟩

/-- A traversal fails as the conversion of some element does. -/
theorem exists_eq_error_of_mapM {failure : ε} (h : elements.mapM f = .error failure) :
    ∃ a ∈ elements, f a = .error failure := by
  induction elements with
  | nil => cases h
  | cons a elements ih =>
      rw [List.mapM_cons] at h
      cases hhead : f a with
      | error failure' =>
          rw [hhead] at h
          cases h
          exact ⟨a, List.mem_cons_self, hhead⟩
      | ok b =>
          rw [hhead] at h
          cases htail : elements.mapM f with
          | error failure' =>
              rw [htail] at h
              cases h
              obtain ⟨a', hmem, hfailed⟩ := ih htail
              exact ⟨a', List.mem_cons_of_mem a hmem, hfailed⟩
          | ok rest =>
              rw [htail] at h
              cases h

/-- What every conversion keeps of its element, a traversal keeps of the list. -/
theorem map_eq_of_mapM_eq_ok {g : β → γ} {h : α → γ}
    (hkeep : ∀ a b, f a = .ok b → g b = h a)
    (hresults : elements.mapM f = .ok results) :
    results.map g = elements.map h := by
  rw [eq_comm, ← List.forall₂_eq_eq_eq, List.forall₂_map_left_iff,
    List.forall₂_map_right_iff]
  exact (mapM_eq_ok_iff.mp hresults).imp fun a b hab => (hkeep a b hab).symm

end Foundation

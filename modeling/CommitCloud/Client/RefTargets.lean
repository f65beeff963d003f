import CommitCloud.Client.WriteBack
import CommitCloud.Foundation.Optionals

/-!
# Targets on the wire

A message holds the ids of a target's terms, but not where terms are absent.
What is read back denotes the same conflict, and is the target itself exactly
if the absent terms stand where the reader puts them: at the end of the removed
or of the added terms.
-/

namespace CommitCloud.Client.OpStore

open Foundation CommitCloud.JjLib

variable {J : JjLib} {terms : J.RefTarget → JjLib.Merge}

/-! ## Terms that are read back -/

/-- The target that is read back of a target with these terms. -/
def normalTerms (target : Merge) : Merge :=
  Merge.fromLegacyForm target.removes.reduceOption target.adds.reduceOption

/-- Absent terms at the end of one side are put back by the padding. -/
theorem normalTerms_eq_self {target : Merge} {missing missing' : Nat}
    (hremoves : target.removes =
      target.removes.reduceOption.map some ++ List.replicate missing none)
    (hadds : target.adds =
      target.adds.reduceOption.map some ++ List.replicate missing' none)
    (hone : missing = 0 ∨ missing' = 0) : normalTerms target = target := by
  have hlength := target.length_adds
  have hcount := congrArg List.length hremoves
  have hcount' := congrArg List.length hadds
  simp only [List.length_map, List.length_append, List.length_replicate]
    at hcount hcount'
  have hmissing : target.adds.reduceOption.length - 1 -
      target.removes.reduceOption.length = missing := by omega
  have hmissing' : target.removes.reduceOption.length + 1 -
      target.adds.reduceOption.length = missing' := by omega
  refine Merge.ext_terms ?_ ?_
  · rw [normalTerms, Merge.fromLegacyForm_removes, hmissing, ← hremoves]
  · rw [normalTerms, Merge.fromLegacyForm_adds, hmissing', ← hadds]

theorem normalTerms_eq_self_iff {target : Merge} :
    normalTerms target = target ↔
      none ∉ target.adds ∧ AbsentLast target.removes ∨
        none ∉ target.removes ∧ AbsentLast target.adds := by
  have hnone (present : List CommitId) : none ∉ present.map some := by simp
  constructor
  · intro h
    have hremoves := (congrArg Merge.removes h).symm
    have hadds := (congrArg Merge.adds h).symm
    rw [normalTerms, Merge.fromLegacyForm_removes] at hremoves
    rw [normalTerms, Merge.fromLegacyForm_adds] at hadds
    -- one of the two sides is padded with nothing
    by_cases hpadded :
        target.removes.reduceOption.length + 1 ≤ target.adds.reduceOption.length
    · left
      rw [Nat.sub_eq_zero_of_le hpadded, List.replicate_zero, List.append_nil] at hadds
      exact ⟨hadds ▸ hnone _, _, hremoves⟩
    · right
      have hzero : target.adds.reduceOption.length - 1 -
          target.removes.reduceOption.length = 0 := by omega
      rw [hzero, List.replicate_zero, List.append_nil] at hremoves
      exact ⟨hremoves ▸ hnone _, _, hadds⟩
  · have hpresent {values : List (Option CommitId)} (hall : none ∉ values) :
        values = values.reduceOption.map some ++ List.replicate 0 none := by
      rw [List.replicate_zero, List.append_nil]
      exact eq_map_some_of_none_notMem hall
    rintro (⟨hall, missing, hrest⟩ | ⟨hall, missing, hrest⟩)
    · exact normalTerms_eq_self hrest (hpresent hall) (.inr rfl)
    · exact normalTerms_eq_self (hpresent hall) hrest (.inl rfl)

/-! ## What a conflict denotes -/

/-- How often a value is added more than it is removed. -/
def balance (target : Merge) (value : Option CommitId) : Int :=
  target.adds.count value - target.removes.count value

/-- The present terms of a target determine its balance, also of absent terms. -/
theorem balance_eq {target target' : Merge}
    (hremoves : target.removes.reduceOption = target'.removes.reduceOption)
    (hadds : target.adds.reduceOption = target'.adds.reduceOption)
    (value : Option CommitId) : balance target value = balance target' value := by
  cases value with
  | some id => simp only [balance, count_some, hremoves, hadds]
  | none =>
      have hlength := target.length_adds
      have hlength' := target'.length_adds
      have htarget := length_eq_add_count target.removes
      have htarget' := length_eq_add_count target'.removes
      have hadded := length_eq_add_count target.adds
      have hadded' := length_eq_add_count target'.adds
      rw [hremoves] at htarget
      rw [hadds] at hadded
      unfold balance
      omega

/-! ## The codec -/

/-- What the encoding of targets keeps, and which targets it keeps as they are. -/
structure RefTargetCodec (J : JjLib) (terms : J.RefTarget → Merge) : Prop where
  removedIds : ∀ target,
    J.removedIds (refTargetFromProto J (refTargetToProto J target)) = J.removedIds target
  addedIds : ∀ target,
    J.addedIds (refTargetFromProto J (refTargetToProto J target)) = J.addedIds target
  balance : ∀ target value,
    balance (terms (refTargetFromProto J (refTargetToProto J target))) value =
      balance (terms target) value
  unchanged : ∀ target,
    refTargetFromProto J (refTargetToProto J target) = target ↔
      none ∉ (terms target).adds ∧ AbsentLast (terms target).removes ∨
        none ∉ (terms target).removes ∧ AbsentLast (terms target).adds
  message : ∀ message : Proto.OpStore.RefTarget,
    refTargetToProto J (refTargetFromProto J message) = message

theorem refTargetFromProto_toProto (target : J.RefTarget) :
    refTargetFromProto J (refTargetToProto J target) =
      J.fromLegacyForm (J.removedIds target) (J.addedIds target) := by
  simp only [refTargetFromProto, refTargetToProto, List.map_map, Function.comp_def,
    List.map_id']

theorem terms_roundTrip (h : J.Alternates terms) (target : J.RefTarget) :
    terms (refTargetFromProto J (refTargetToProto J target)) =
      normalTerms (terms target) := by
  rw [refTargetFromProto_toProto, h.fromLegacyForm, h.removedIds, h.addedIds, normalTerms]

theorem refTargetCodec (h : J.Alternates terms) : RefTargetCodec J terms where
  removedIds target := by
    rw [refTargetFromProto_toProto, h.keepsLegacyForm.removedIds]
  addedIds target := by
    rw [refTargetFromProto_toProto, h.keepsLegacyForm.addedIds]
  balance target value := by
    refine balance_eq ?_ ?_ value
    · rw [← h.removedIds, refTargetFromProto_toProto, h.keepsLegacyForm.removedIds,
        h.removedIds]
    · rw [← h.addedIds, refTargetFromProto_toProto, h.keepsLegacyForm.addedIds, h.addedIds]
  unchanged target := by
    rw [← h.injective.eq_iff, terms_roundTrip h]
    exact normalTerms_eq_self_iff
  message := refTargetToProto_fromProto h.keepsLegacyForm

theorem refTargetCodec_reference : RefTargetCodec .reference id :=
  refTargetCodec JjLib.reference_alternates

end CommitCloud.Client.OpStore

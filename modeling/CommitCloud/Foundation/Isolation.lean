import CommitCloud.Foundation.Reactive

/-!
# Isolation

Some requests to a machine are inside a part of its state, the others are
outside.  When the requests inside are answered from that part alone and those
outside leave it alone, leaving out requests outside changes no answer inside.
-/

namespace Foundation

variable {σ ρ ω α : Type*}

/-- The second list leaves out some elements outside. -/
inductive LeavesOut (inside : ρ → Prop) : List ρ → List ρ → Prop where
  | nil : LeavesOut inside [] []
  | keep (r : ρ) {rs rs' : List ρ} (hrest : LeavesOut inside rs rs') :
      LeavesOut inside (r :: rs) (r :: rs')
  | drop {r : ρ} {rs rs' : List ρ} (houtside : ¬ inside r)
      (hrest : LeavesOut inside rs rs') : LeavesOut inside (r :: rs) rs'

theorem LeavesOut.sublist {inside : ρ → Prop} {rs rs' : List ρ}
    (h : LeavesOut inside rs rs') : rs'.Sublist rs := by
  induction h with
  | nil => exact .slnil
  | keep r _ ih => exact ih.cons_cons r
  | drop _ _ ih => exact ih.cons _

structure Isolates (M : Reactive σ ρ ω) (inside : ρ → Prop) (view : σ → α) :
    Prop where
  answer : ∀ s s' r, inside r → view s = view s' → (M s r).1 = (M s' r).1
  state : ∀ s s' r, inside r → view s = view s' →
    view (M s r).2 = view (M s' r).2
  outside : ∀ s r, ¬ inside r → view (M s r).2 = view s

theorem Isolates.trace_eq {M : Reactive σ ρ ω} {inside : ρ → Prop}
    [DecidablePred inside] {view : σ → α} (h : Isolates M inside view)
    {rs rs' : List ρ} (hrs : LeavesOut inside rs rs') {s s' : σ}
    (hview : view s = view s') :
    (M.trace s rs).filter (fun call => inside call.1) =
      (M.trace s' rs').filter fun call => inside call.1 := by
  induction hrs generalizing s s' with
  | nil => rfl
  | keep r hrest ih =>
      by_cases hr : inside r
      · have hrest_eq := ih (h.state s s' r hr hview)
        simp [hr, h.answer s s' r hr hview, hrest_eq]
      · have hkept : view (M s r).2 = view (M s' r).2 := by
          rw [h.outside s r hr, h.outside s' r hr, hview]
        simp [hr, ih hkept]
  | @drop r rs rs' houtside hrest ih =>
      have hkept : view (M s r).2 = view s' := by rw [h.outside s r houtside, hview]
      simp [houtside, ih hkept]

/-- The same, for requests that are allowed and states that these lead to. -/
structure IsolatesWithin (M : Reactive σ ρ ω) (good : σ → Prop) (allowed inside : ρ → Prop)
    (view : σ → α) : Prop where
  answer : ∀ s s' r, good s → good s' → allowed r → inside r → view s = view s' →
    (M s r).1 = (M s' r).1
  state : ∀ s s' r, good s → good s' → allowed r → inside r → view s = view s' →
    view (M s r).2 = view (M s' r).2
  outside : ∀ s r, good s → allowed r → ¬ inside r → view (M s r).2 = view s
  preserved : ∀ s r, good s → allowed r → good (M s r).2

theorem IsolatesWithin.trace_eq {M : Reactive σ ρ ω} {good : σ → Prop}
    {allowed inside : ρ → Prop} [DecidablePred inside] {view : σ → α}
    (h : IsolatesWithin M good allowed inside view) {rs rs' : List ρ}
    (hrs : LeavesOut inside rs rs') (hallowed : ∀ r ∈ rs, allowed r) {s s' : σ}
    (hs : good s) (hs' : good s') (hview : view s = view s') :
    (M.trace s rs).filter (fun call => inside call.1) =
      (M.trace s' rs').filter fun call => inside call.1 := by
  induction hrs generalizing s s' with
  | nil => rfl
  | keep r hrest ih =>
      obtain ⟨hr, hrs⟩ := List.forall_mem_cons.mp hallowed
      have hnext := ih hrs (h.preserved s r hs hr) (h.preserved s' r hs' hr)
      by_cases hinside : inside r
      · have hanswer := h.answer s s' r hs hs' hr hinside hview
        simp [hinside, hanswer, hnext (h.state s s' r hs hs' hr hinside hview)]
      · have hkept : view (M s r).2 = view (M s' r).2 := by
          rw [h.outside s r hs hr hinside, h.outside s' r hs' hr hinside, hview]
        simp [hinside, hnext hkept]
  | @drop r rs rs' houtside hrest ih =>
      obtain ⟨hr, hrs⟩ := List.forall_mem_cons.mp hallowed
      have hkept : view (M s r).2 = view s' := by
        rw [h.outside s r hs hr houtside, hview]
      simp [houtside, ih hrs (h.preserved s r hs hr) hs' hkept]

/-- The answers to some of the requests inside. -/
theorem IsolatesWithin.trace_eq_of_inside {M : Reactive σ ρ ω} {good : σ → Prop}
    {allowed inside p : ρ → Prop} [DecidablePred inside] [DecidablePred p] {view : σ → α}
    (h : IsolatesWithin M good allowed inside view) (hp : ∀ r, p r → inside r)
    {rs rs' : List ρ} (hrs : LeavesOut inside rs rs') (hallowed : ∀ r ∈ rs, allowed r)
    {s s' : σ} (hs : good s) (hs' : good s') (hview : view s = view s') :
    (M.trace s rs).filter (fun call => p call.1) =
      (M.trace s' rs').filter fun call => p call.1 := by
  have hfilter (calls : List (ρ × ω)) : calls.filter (fun call => p call.1) =
      (calls.filter fun call => inside call.1).filter fun call => p call.1 := by
    rw [List.filter_filter]
    refine List.filter_congr fun call _ => ?_
    by_cases hcall : p call.1
    · simp [hcall, hp _ hcall]
    · simp [hcall]
  rw [hfilter, h.trace_eq hrs hallowed hs hs' hview, ← hfilter]

end Foundation

import Mathlib.Data.List.Induction

/-!
# Reactive machines

A reactive machine answers one request at a time and changes its state.  A run
is the list of requests it is given; its trace pairs each request with the
answer.  The two induction rules say what a step must preserve for a property
to hold along every run: a property of the state, or of the state together
with the trace that led to it.
-/

namespace Foundation

variable {σ ρ ω : Type*}

/-- The answer to a request and the state after it. -/
abbrev Reactive (σ ρ ω : Type*) := σ → ρ → ω × σ

namespace Reactive

variable (M : Reactive σ ρ ω)

def finalState (s : σ) : List ρ → σ
  | [] => s
  | r :: rs => finalState (M s r).2 rs

def trace (s : σ) : List ρ → List (ρ × ω)
  | [] => []
  | r :: rs => (r, (M s r).1) :: trace (M s r).2 rs

@[simp] theorem finalState_nil (s : σ) : M.finalState s [] = s := rfl

@[simp] theorem trace_nil (s : σ) : M.trace s [] = [] := rfl

@[simp] theorem finalState_cons (s : σ) (r : ρ) (rs : List ρ) :
    M.finalState s (r :: rs) = M.finalState (M s r).2 rs := rfl

@[simp] theorem trace_cons (s : σ) (r : ρ) (rs : List ρ) :
    M.trace s (r :: rs) = (r, (M s r).1) :: M.trace (M s r).2 rs := rfl

theorem finalState_append (s : σ) (first second : List ρ) :
    M.finalState s (first ++ second) =
      M.finalState (M.finalState s first) second := by
  induction first generalizing s with
  | nil => rfl
  | cons r first ih => exact ih _

theorem trace_append (s : σ) (first second : List ρ) :
    M.trace s (first ++ second) =
      M.trace s first ++ M.trace (M.finalState s first) second := by
  induction first generalizing s with
  | nil => rfl
  | cons r first ih => exact congrArg _ (ih _)

@[simp] theorem length_trace (s : σ) (rs : List ρ) :
    (M.trace s rs).length = rs.length := by
  induction rs generalizing s with
  | nil => rfl
  | cons r rs ih => exact congrArg Nat.succ (ih _)

theorem mem_trace_iff {s : σ} {rs : List ρ} {entry : ρ × ω} :
    entry ∈ M.trace s rs ↔ ∃ before after, rs = before ++ entry.1 :: after ∧
      (M (M.finalState s before) entry.1).1 = entry.2 := by
  induction rs generalizing s with
  | nil => simp
  | cons r rs ih =>
      rw [trace_cons, List.mem_cons, ih]
      constructor
      · rintro (rfl | ⟨before, after, rfl, hanswer⟩)
        · exact ⟨[], rs, rfl, rfl⟩
        · exact ⟨r :: before, after, rfl, hanswer⟩
      · rintro ⟨before, after, hsplit, hanswer⟩
        cases before with
        | nil =>
            obtain ⟨rfl, rfl⟩ := List.cons.inj hsplit
            exact .inl (Prod.ext rfl hanswer.symm)
        | cons r' before =>
            obtain ⟨rfl, rfl⟩ := List.cons.inj hsplit
            exact .inr ⟨before, after, rfl, hanswer⟩

theorem invariant {I : σ → Prop} {s : σ} {rs : List ρ} (hinit : I s)
    (hstep : ∀ s, ∀ r ∈ rs, I s → I (M s r).2) : I (M.finalState s rs) := by
  induction rs generalizing s with
  | nil => exact hinit
  | cons r rs ih =>
      exact ih (hstep s r List.mem_cons_self hinit)
        fun s' r' hr' => hstep s' r' (List.mem_cons_of_mem _ hr')

@[simp] theorem finalState_concat (s : σ) (before : List ρ) (r : ρ) :
    M.finalState s (before ++ [r]) = (M (M.finalState s before) r).2 :=
  M.finalState_append s before [r]

/--
A machine that passes each request on to another machine, or drops it, takes
that machine through the requests it passed on.
-/
theorem finalState_eq_of_forward {ρ' ω' : Type*} {N : Reactive σ ρ' ω'}
    (forward : ρ → Option ρ')
    (hstep : ∀ s r, (M s r).2 = (forward r).elim s fun r' => (N s r').2)
    (s : σ) (rs : List ρ) :
    M.finalState s rs = N.finalState s (rs.filterMap forward) := by
  induction rs generalizing s with
  | nil => rfl
  | cons r rs ih =>
      rw [finalState_cons, ih, hstep, List.filterMap_cons]
      cases forward r <;> rfl

/-- What was passed on was answered in the same state. -/
theorem mem_trace_of_forward {ρ' ω' : Type*} {N : Reactive σ ρ' ω'}
    {forward : ρ → Option ρ'}
    (hstep : ∀ s r, (M s r).2 = (forward r).elim s fun r' => (N s r').2)
    {s : σ} {rs : List ρ} {r : ρ} {a : ω} {r' : ρ'} (hmem : (r, a) ∈ M.trace s rs)
    (hforward : forward r = some r') :
    ∃ s', (M s' r).1 = a ∧ (r', (N s' r').1) ∈ N.trace s (rs.filterMap forward) := by
  obtain ⟨before, after, rfl, hanswer⟩ := M.mem_trace_iff.mp hmem
  refine ⟨_, hanswer, N.mem_trace_iff.mpr ⟨before.filterMap forward,
    after.filterMap forward, ?_, ?_⟩⟩
  · rw [List.filterMap_append, List.filterMap_cons_some hforward]
  · rw [M.finalState_eq_of_forward forward hstep]

/-- What the other machine answered was passed on. -/
theorem exists_mem_trace_of_forward {ρ' ω' : Type*} {N : Reactive σ ρ' ω'}
    {forward : ρ → Option ρ'}
    (hstep : ∀ s r, (M s r).2 = (forward r).elim s fun r' => (N s r').2)
    {s : σ} {rs : List ρ} {r' : ρ'} {a' : ω'}
    (hmem : (r', a') ∈ N.trace s (rs.filterMap forward)) :
    ∃ s' r, forward r = some r' ∧ (r, (M s' r).1) ∈ M.trace s rs ∧ (N s' r').1 = a' := by
  induction rs generalizing s with
  | nil => cases hmem
  | cons r rs ih =>
      have hlater (h : (r', a') ∈ N.trace (M s r).2 (rs.filterMap forward)) :
          ∃ s' r₁, forward r₁ = some r' ∧ (r₁, (M s' r₁).1) ∈ M.trace s (r :: rs) ∧
            (N s' r').1 = a' := by
        obtain ⟨s', r₁, hforward, hmem', hanswer⟩ := ih h
        exact ⟨s', r₁, hforward, List.mem_cons_of_mem _ hmem', hanswer⟩
      cases hr : forward r with
      | none =>
          rw [List.filterMap_cons_none hr] at hmem
          refine hlater ?_
          rwa [hstep, hr, Option.elim_none]
      | some first =>
          rw [List.filterMap_cons_some hr, trace_cons, List.mem_cons] at hmem
          rcases hmem with hfirst | hmem
          · obtain ⟨rfl, rfl⟩ := Prod.mk.inj hfirst
            exact ⟨s, r, hr, List.mem_cons_self, rfl⟩
          · refine hlater ?_
            rwa [hstep, hr, Option.elim_some]

/-- A condition on every request and those before it, request by request. -/
theorem forall_initial_cons_iff {p : List ρ → ρ → Prop} {r : ρ} {rs : List ρ} :
    (∀ before r', before ++ [r'] <+: r :: rs → p before r') ↔
      p [] r ∧ ∀ before r', before ++ [r'] <+: rs → p (r :: before) r' := by
  constructor
  · intro h
    exact ⟨h [] r (by simp), fun before r' hinitial =>
      h (r :: before) r' (List.cons_prefix_cons.mpr ⟨rfl, hinitial⟩)⟩
  · rintro ⟨hfirst, hrest⟩ (_ | ⟨first, before⟩) r' hinitial
    · obtain ⟨rfl, -⟩ := List.cons_prefix_cons.mp hinitial
      exact hfirst
    · obtain ⟨rfl, htail⟩ := List.cons_prefix_cons.mp hinitial
      exact hrest before r' htail

/-- A property that every step of one run preserves holds all along that run. -/
theorem invariant_along {I : σ → Prop} {s : σ} {rs : List ρ} (hinit : I s)
    (hstep : ∀ before r, before ++ [r] <+: rs → I (M.finalState s before) →
      I (M (M.finalState s before) r).2)
    {before : List ρ} (hbefore : before <+: rs) : I (M.finalState s before) := by
  induction before using List.reverseRecOn with
  | nil => exact hinit
  | append_singleton before r ih =>
      rw [finalState_concat]
      exact hstep before r hbefore
        (ih ((List.prefix_append before [r]).trans hbefore))

private theorem invariant_history_from {I : List (ρ × ω) → σ → Prop}
    (hstep : ∀ past s r, I past s → I (past ++ [(r, (M s r).1)]) (M s r).2)
    {past : List (ρ × ω)} {s : σ} (hinit : I past s) (rs : List ρ) :
    I (past ++ M.trace s rs) (M.finalState s rs) := by
  induction rs generalizing past s with
  | nil => simpa using hinit
  | cons r rs ih => simpa using ih (hstep past s r hinit)

/-- The rule for properties that relate the state to the trace so far. -/
theorem invariant_history {I : List (ρ × ω) → σ → Prop} {s : σ}
    (hinit : I [] s)
    (hstep : ∀ past s r, I past s → I (past ++ [(r, (M s r).1)]) (M s r).2)
    (rs : List ρ) : I (M.trace s rs) (M.finalState s rs) := by
  simpa using M.invariant_history_from hstep hinit rs

end Reactive

end Foundation

import CommitCloud.Foundation.Reactive

/-!
# Simulation and routed products

Two machines that are given the same requests are compared by a relation of
their states that every request preserves; along a run their answers are then
alike.  A routed product runs one machine for every key and passes each request
to the machine of its key, so what happens under one key is a run of its own.
-/

namespace Foundation

variable {σ τ ρ ω ω' ι : Type*}

/-- Machines that go on together under the requests that are allowed. -/
structure SimulatesWithin (M : Reactive σ ρ ω) (N : Reactive τ ρ ω') (allowed : ρ → Prop)
    (related : σ → τ → Prop) (alike : ω → ω' → Prop) : Prop where
  answer : ∀ s t r, allowed r → related s t → alike (M s r).1 (N t r).1
  state : ∀ s t r, allowed r → related s t → related (M s r).2 (N t r).2

section Within

variable {M : Reactive σ ρ ω} {N : Reactive τ ρ ω'} {allowed : ρ → Prop}
  {related : σ → τ → Prop} {alike : ω → ω' → Prop} {s : σ} {t : τ}
  (h : SimulatesWithin M N allowed related alike)

include h

theorem SimulatesWithin.finalState (hst : related s t) {rs : List ρ}
    (hallowed : ∀ r ∈ rs, allowed r) : related (M.finalState s rs) (N.finalState t rs) := by
  induction rs generalizing s t with
  | nil => exact hst
  | cons r rs ih =>
      obtain ⟨hr, hrs⟩ := List.forall_mem_cons.mp hallowed
      exact ih (h.state s t r hr hst) hrs

theorem SimulatesWithin.trace (hst : related s t) {rs : List ρ}
    (hallowed : ∀ r ∈ rs, allowed r) :
    List.Forall₂ (fun call call' => call.1 = call'.1 ∧ alike call.2 call'.2)
      (M.trace s rs) (N.trace t rs) := by
  induction rs generalizing s t with
  | nil => exact .nil
  | cons r rs ih =>
      obtain ⟨hr, hrs⟩ := List.forall_mem_cons.mp hallowed
      exact .cons ⟨rfl, h.answer s t r hr hst⟩ (ih (h.state s t r hr hst) hrs)

end Within

structure Simulates (M : Reactive σ ρ ω) (N : Reactive τ ρ ω')
    (related : σ → τ → Prop) (alike : ω → ω' → Prop) : Prop where
  answer : ∀ s t r, related s t → alike (M s r).1 (N t r).1
  state : ∀ s t r, related s t → related (M s r).2 (N t r).2

namespace Simulates

variable {M : Reactive σ ρ ω} {related : σ → τ → Prop} {s : σ} {t : τ}

section Alike

variable {N : Reactive τ ρ ω'} {alike : ω → ω' → Prop}
  (h : Simulates M N related alike)

include h

theorem within : SimulatesWithin M N (fun _ => True) related alike where
  answer s t r _ := h.answer s t r
  state s t r _ := h.state s t r

theorem finalState (hst : related s t) (rs : List ρ) :
    related (M.finalState s rs) (N.finalState t rs) :=
  h.within.finalState hst fun _ _ => trivial

theorem trace (hst : related s t) (rs : List ρ) :
    List.Forall₂ (fun call call' => call.1 = call'.1 ∧ alike call.2 call'.2)
      (M.trace s rs) (N.trace t rs) :=
  h.within.trace hst fun _ _ => trivial

end Alike

theorem trace_eq {N : Reactive τ ρ ω} (h : Simulates M N related Eq)
    (hst : related s t) (rs : List ρ) : M.trace s rs = N.trace t rs := by
  induction rs generalizing s t with
  | nil => rfl
  | cons r rs ih =>
      rw [Reactive.trace_cons, Reactive.trace_cons, h.answer s t r hst,
        ih (h.state s t r hst)]

end Simulates

namespace Reactive

section Comap

variable {ρ' : Type*} (f : ρ → ρ') (N : Reactive σ ρ' ω) (s : σ) (rs : List ρ)

/-- The machine that takes each request for the one that stands for it. -/
def comap : Reactive σ ρ ω := fun s r => N s (f r)

theorem comap_finalState : (N.comap f).finalState s rs = N.finalState s (rs.map f) := by
  induction rs generalizing s with
  | nil => rfl
  | cons r rs ih => exact ih _

theorem comap_trace :
    N.trace s (rs.map f) = ((N.comap f).trace s rs).map (Prod.map f id) := by
  induction rs generalizing s with
  | nil => rfl
  | cons r rs ih => exact congrArg _ (ih _)

end Comap

variable [DecidableEq ι] (key : ρ → ι) (M : Reactive σ ρ ω)

/-- One machine for every key. -/
def product : Reactive (ι → σ) ρ ω := fun states r =>
  ((M (states (key r)) r).1,
    Function.update states (key r) (M (states (key r)) r).2)

variable {key M} {states : ι → σ} {r : ρ} {i : ι}

theorem product_state_self (h : key r = i) :
    (M.product key states r).2 i = (M (states i) r).2 := by
  subst h
  exact Function.update_self ..

theorem product_state_of_ne (h : key r ≠ i) :
    (M.product key states r).2 i = states i :=
  Function.update_of_ne (Ne.symm h) ..

variable (M states i)

/-- The machine of a key is in the state that the requests with this key led to. -/
theorem product_finalState (rs : List ρ) :
    (M.product key).finalState states rs i =
      M.finalState (states i) (rs.filter fun r => key r = i) := by
  induction rs generalizing states with
  | nil => rfl
  | cons r rs ih =>
      by_cases hkey : key r = i
      · simp [hkey, ih, product_state_self]
      · simp [hkey, ih, product_state_of_ne]

theorem product_trace (rs : List ρ) :
    ((M.product key).trace states rs).filter (fun call => key call.1 = i) =
      M.trace (states i) (rs.filter fun r => key r = i) := by
  induction rs generalizing states with
  | nil => rfl
  | cons r rs ih =>
      by_cases hkey : key r = i
      · subst hkey
        simp [ih, product]
      · simp [hkey, ih, product_state_of_ne]

end Reactive

end Foundation

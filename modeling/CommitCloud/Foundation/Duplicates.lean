import CommitCloud.Foundation.Reactive

/-!
# Late duplicates

A request is settled in a state in which handling it once more changes nothing.
If it is settled after it was handled, and only requests follow that do not
interfere with it, then a late duplicate of it can be left out of the run.
-/

namespace Foundation

variable {σ ρ ω : Type*}

structure Settles (M : Reactive σ ρ ω) (settled : σ → ρ → Prop)
    (interferes : ρ → ρ → Prop) : Prop where
  done : ∀ s r, settled s r → (M s r).2 = s
  kept : ∀ s r r', settled s r → ¬ interferes r r' → settled (M s r').2 r

namespace Settles

variable {M : Reactive σ ρ ω} {settled : σ → ρ → Prop} {interferes : ρ → ρ → Prop}
  {s : σ} {r : ρ} {between : List ρ} (h : Settles M settled interferes)

include h

theorem settled_finalState (hsettled : settled s r)
    (hbetween : ∀ r' ∈ between, ¬ interferes r r') :
    settled (M.finalState s between) r :=
  M.invariant (I := fun s => settled s r) hsettled fun s r' hr' hsettled =>
    h.kept s r r' hsettled (hbetween r' hr')

theorem finalState_duplicate (hsettled : settled (M s r).2 r)
    (hbetween : ∀ r' ∈ between, ¬ interferes r r') :
    M.finalState s (r :: between ++ [r]) = M.finalState s (r :: between) := by
  have hlater : settled (M.finalState (M s r).2 between) r :=
    h.settled_finalState hsettled hbetween
  rw [Reactive.finalState_concat]
  exact h.done _ r hlater

end Settles

end Foundation

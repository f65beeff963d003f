import Mathlib.Logic.Basic

/-!
# Programs with atomic accesses

A program either has its result or makes one atomic access to the shared state
and goes on with what the access returned.  `run` makes all accesses at once;
between them, other programs may act.
-/

namespace Foundation

universe u

inductive Program (σ ω : Type u) : Type (u + 1) where
  | done (result : ω)
  | access {β : Type u} (method : σ → β × σ) (next : β → Program σ ω)

namespace Program

variable {σ ω : Type u}

def run : Program σ ω → σ → ω × σ
  | .done result, s => (result, s)
  | .access method next, s => (next (method s).1).run (method s).2

/-- The program that makes one access and answers. -/
def once {β : Type u} (method : σ → β × σ) (answer : β → ω) : Program σ ω :=
  .access method fun b => .done (answer b)

@[simp] theorem run_done (result : ω) (s : σ) :
    (done result : Program σ ω).run s = (result, s) := rfl

@[simp] theorem run_access {β : Type u} (method : σ → β × σ)
    (next : β → Program σ ω) (s : σ) :
    (access method next).run s = (next (method s).1).run (method s).2 := rfl

@[simp] theorem run_once {β : Type u} (method : σ → β × σ) (answer : β → ω)
    (s : σ) : (once method answer).run s = (answer (method s).1, (method s).2) :=
  rfl

/-- The program makes at most one access. -/
inductive AtMostOnce : Program σ ω → Prop where
  | done (result : ω) : AtMostOnce (.done result)
  | once {β : Type u} (method : σ → β × σ) (answer : β → ω) :
      AtMostOnce (.once method answer)

theorem AtMostOnce.next_done {β : Type u} {method : σ → β × σ}
    {next : β → Program σ ω} (h : (access method next).AtMostOnce) (b : β) :
    ∃ result, next b = .done result := by
  cases h with
  | once _ answer => exact ⟨answer b, rfl⟩

/-- Every access sees and changes only what `view` shows of the state. -/
inductive Within {α : Type*} (view : σ → α) : Program σ ω → Prop where
  | done (result : ω) : Within view (.done result)
  | access {β : Type u} {method : σ → β × σ} {next : β → Program σ ω}
      (hmethod : ∀ s s', view s = view s' →
        (method s).1 = (method s').1 ∧ view (method s).2 = view (method s').2)
      (hnext : ∀ b, Within view (next b)) : Within view (.access method next)

theorem Within.run_eq {α : Type*} {view : σ → α} {program : Program σ ω}
    (h : program.Within view) {s s' : σ} (hview : view s = view s') :
    (program.run s).1 = (program.run s').1 ∧
      view (program.run s).2 = view (program.run s').2 := by
  induction h generalizing s s' with
  | done result => exact ⟨rfl, hview⟩
  | access hmethod _ ih =>
      obtain ⟨hresult, hstate⟩ := hmethod s s' hview
      rw [run_access, run_access, hresult]
      exact ih _ hstate

/-- Whatever its accesses return, the result of the program is `ok`. -/
inductive Ends (ok : ω → Prop) : Program σ ω → Prop where
  | done {result : ω} (hresult : ok result) : Ends ok (.done result)
  | access {β : Type u} {method : σ → β × σ} {next : β → Program σ ω}
      (hnext : ∀ b, Ends ok (next b)) : Ends ok (.access method next)

theorem Ends.once {ok : ω → Prop} {β : Type u} {method : σ → β × σ} {answer : β → ω}
    (hanswer : ∀ b, ok (answer b)) : (Program.once method answer).Ends ok :=
  .access fun b => .done (hanswer b)

theorem Ends.run {ok : ω → Prop} {program : Program σ ω} (h : program.Ends ok)
    (s : σ) : ok (program.run s).1 := by
  induction h generalizing s with
  | done hresult => exact hresult
  | access _ ih => exact ih _ _

end Program

end Foundation

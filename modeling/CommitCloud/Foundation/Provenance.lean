import CommitCloud.Foundation.Reactive
import Mathlib.Data.List.Forall2

/-!
# Where stored values come from

A reactive machine stores values under keys.  `Filled` names the requests that
store: a request that wrote a value leaves it stored, and only such requests
change what is stored.  In a run from an empty store every stored value was
then written by a call of the trace, and what was written stays present until
another write under its key.  `Identifies` is what a content store promises
when a key says all about its value that `same` compares; by the above it
amounts to a statement about pairs of writes.
-/

namespace Foundation

variable {σ ρ ω κ ν : Type*}

structure Filled (M : Reactive σ ρ ω) (stored : σ → κ → Option ν)
    (wrote : ρ → ω → κ → ν → Prop) : Prop where
  written : ∀ s r key v, wrote r (M s r).1 key v → stored (M s r).2 key = some v
  kept : ∀ s r key, stored (M s r).2 key = stored s key ∨
    ∃ v, wrote r (M s r).1 key v

def Written (wrote : ρ → ω → κ → ν → Prop) (trace : List (ρ × ω)) (key : κ)
    (v : ν) : Prop :=
  ∃ call ∈ trace, wrote call.1 call.2 key v

variable {M : Reactive σ ρ ω} {stored : σ → κ → Option ν}
  {wrote : ρ → ω → κ → ν → Prop} {s : σ} {key : κ} {v : ν}

namespace Written

variable {trace : List (ρ × ω)} {call : ρ × ω}

theorem append (h : Written wrote trace key v) :
    Written wrote (trace ++ [call]) key v := by
  obtain ⟨call', hmem, hwrote⟩ := h
  exact ⟨call', List.mem_append_left _ hmem, hwrote⟩

theorem last (h : wrote call.1 call.2 key v) :
    Written wrote (trace ++ [call]) key v :=
  ⟨call, List.mem_append_right _ (List.mem_singleton_self _), h⟩

theorem append_iff : Written wrote (trace ++ [call]) key v ↔
    Written wrote trace key v ∨ wrote call.1 call.2 key v := by
  constructor
  · rintro ⟨call', hmem, hwrote⟩
    rcases List.mem_append.mp hmem with hmem | hmem
    · exact .inl ⟨call', hmem, hwrote⟩
    · exact .inr (List.mem_singleton.mp hmem ▸ hwrote)
  · rintro (h | h)
    · exact h.append
    · exact .last h

end Written

theorem written_iff {requests : List ρ} :
    Written wrote (M.trace s requests) key v ↔
      ∃ before r, before ++ [r] <+: requests ∧
        wrote r (M (M.finalState s before) r).1 key v := by
  constructor
  · rintro ⟨⟨r, a⟩, hmem, hwrote⟩
    obtain ⟨before, after, rfl, hanswer⟩ := M.mem_trace_iff.mp hmem
    exact ⟨before, r, ⟨after, by simp⟩, hanswer ▸ hwrote⟩
  · rintro ⟨before, r, ⟨after, rfl⟩, hwrote⟩
    refine ⟨(r, _), M.mem_trace_iff.mpr ⟨before, after, by simp, rfl⟩, hwrote⟩

theorem Written.of_initial {before requests : List ρ}
    (hinitial : before <+: requests)
    (h : Written wrote (M.trace s before) key v) :
    Written wrote (M.trace s requests) key v := by
  obtain ⟨after, rfl⟩ := hinitial
  obtain ⟨call, hmem, hwrote⟩ := h
  rw [Reactive.trace_append]
  exact ⟨call, List.mem_append_left _ hmem, hwrote⟩

namespace Filled

theorem provenance (h : Filled M stored wrote) (hempty : ∀ key, stored s key = none)
    (key : κ) {requests : List ρ} (hstored : stored (M.finalState s requests) key = some v) :
    Written wrote (M.trace s requests) key v := by
  refine M.invariant_history
    (I := fun past s => ∀ key v, stored s key = some v → Written wrote past key v)
    (fun key v hstored => ?_) (fun past s r ih key v hstored => ?_) requests
    key v hstored
  · rw [hempty key] at hstored
    cases hstored
  · rcases h.kept s r key with hkept | ⟨v', hwrote⟩
    · exact (ih key v (hkept ▸ hstored)).append
    · have hlast := h.written s r key v' hwrote
      rw [hstored] at hlast
      obtain rfl := Option.some.inj hlast
      exact .last hwrote

/-- What is stored was written by a call of the run. -/
theorem exists_write (h : Filled M stored wrote) (hempty : ∀ key, stored s key = none)
    (key : κ) {requests : List ρ} (hstored : stored (M.finalState s requests) key = some v) :
    ∃ before r, before ++ [r] <+: requests ∧
      wrote r (M (M.finalState s before) r).1 key v :=
  written_iff.mp (h.provenance hempty key hstored)

theorem present (h : Filled M stored wrote) {requests : List ρ}
    (hwritten : Written wrote (M.trace s requests) key v) :
    ∃ v', stored (M.finalState s requests) key = some v' := by
  refine M.invariant_history
    (I := fun past s => ∀ key v, Written wrote past key v →
      ∃ v', stored s key = some v')
    (fun key v hwritten => ?_) (fun past s r ih key v hwritten => ?_) requests
    key v hwritten
  · obtain ⟨call, hmem, -⟩ := hwritten
    cases hmem
  · rcases h.kept s r key with hkept | ⟨v', hwrote⟩
    · rcases Written.append_iff.mp hwritten with hpast | hnow
      · rw [hkept]
        exact ih key v hpast
      · exact ⟨v, h.written s r key v hnow⟩
    · exact ⟨v', h.written s r key v' hwrote⟩

/-- What holds of all that is ever stored is what holds of all that is written. -/
theorem forall_stored_iff (h : Filled M stored wrote) (hempty : ∀ key, stored s key = none)
    {p : κ → ν → Prop} (requests : List ρ) :
    (∀ before, before <+: requests → ∀ key v,
        stored (M.finalState s before) key = some v → p key v) ↔
      ∀ key v, Written wrote (M.trace s requests) key v → p key v := by
  constructor
  · intro hstored key v hwritten
    obtain ⟨before, r, hinitial, hwrote⟩ := written_iff.mp hwritten
    refine hstored (before ++ [r]) hinitial key v ?_
    rw [Reactive.finalState_concat]
    exact h.written _ r key v hwrote
  · intro hwritten before hinitial key v hstored
    exact hwritten key v ((h.provenance hempty key hstored).of_initial hinitial)

end Filled

/-- Keys identify values, as far as `same` compares them. -/
structure Identifies (M : Reactive σ ρ ω) (stored : σ → κ → Option ν)
    (wrote : ρ → ω → κ → ν → Prop) (same : ν → ν → Prop) (s : σ)
    (requests : List ρ) : Prop where
  unique : ∀ key v v', Written wrote (M.trace s requests) key v →
    Written wrote (M.trace s requests) key v' → same v v'
  notReplaced : ∀ before r key old v, before ++ [r] <+: requests →
    stored (M.finalState s before) key = some old →
    wrote r (M (M.finalState s before) r).1 key v → same old v
  readBack : ∀ before key v, before <+: requests →
    Written wrote (M.trace s before) key v →
    ∃ v', stored (M.finalState s before) key = some v' ∧ same v' v

/-- It suffices that any two writes under one key wrote the same. -/
theorem Filled.identifies_iff (h : Filled M stored wrote)
    {same : ν → ν → Prop} (hempty : ∀ key, stored s key = none)
    (requests : List ρ) :
    Identifies M stored wrote same s requests ↔
      ∀ key v v', Written wrote (M.trace s requests) key v →
        Written wrote (M.trace s requests) key v' → same v v' := by
  refine ⟨Identifies.unique, fun hunique => ⟨hunique, ?_, ?_⟩⟩
  · intro before r key old v hinitial hold hwrote
    have hbefore : before <+: requests :=
      (List.prefix_append before [r]).trans hinitial
    refine hunique key old v ((h.provenance hempty key hold).of_initial hbefore) ?_
    refine Written.of_initial hinitial ?_
    rw [Reactive.trace_append]
    exact .last hwrote
  · intro before key v hinitial hwritten
    obtain ⟨v', hstored⟩ := h.present hwritten
    exact ⟨v', hstored, hunique key v' v
      ((h.provenance hempty key hstored).of_initial hinitial)
      (hwritten.of_initial hinitial)⟩

/-! ## Last writes -/

/-- The value was written under the key, and no other one after it. -/
def LastWritten (wrote : ρ → ω → κ → ν → Prop) (trace : List (ρ × ω)) (key : κ)
    (v : ν) : Prop :=
  ∃ before call after, trace = before ++ call :: after ∧ wrote call.1 call.2 key v ∧
    ∀ v', ¬ Written wrote after key v'

section LastWritten

variable {trace : List (ρ × ω)} {call : ρ × ω}

theorem LastWritten.written (h : LastWritten wrote trace key v) :
    Written wrote trace key v := by
  obtain ⟨before, call, after, rfl, hwrote, -⟩ := h
  exact ⟨call, by simp, hwrote⟩

theorem lastWritten_concat_iff : LastWritten wrote (trace ++ [call]) key v ↔
    wrote call.1 call.2 key v ∨
      LastWritten wrote trace key v ∧ ∀ v', ¬ wrote call.1 call.2 key v' := by
  constructor
  · rintro ⟨before, call', after, hsplit, hwrote, hlast⟩
    rcases List.eq_nil_or_concat after with rfl | ⟨after, last, rfl⟩
    · obtain ⟨rfl, hcall⟩ := List.append_inj' hsplit rfl
      obtain rfl := List.singleton_inj.mp hcall
      exact .inl hwrote
    · simp only [List.concat_eq_append] at hsplit hlast
      have hsplit' : trace ++ [call] = (before ++ call' :: after) ++ [last] := by
        simpa using hsplit
      obtain ⟨rfl, hcall⟩ := List.append_inj' hsplit' rfl
      obtain rfl := List.singleton_inj.mp hcall
      exact .inr ⟨⟨before, call', after, rfl, hwrote, fun v' h => hlast v' h.append⟩,
        fun v' h => hlast v' (.last h)⟩
  · rintro (hwrote | ⟨⟨before, call', after, rfl, hwrote, hlast⟩, hother⟩)
    · exact ⟨trace, call, [], rfl, hwrote, fun v' ⟨_, hmem, _⟩ => nomatch hmem⟩
    · refine ⟨before, call', after ++ [call], by simp, hwrote, fun v' h => ?_⟩
      rcases Written.append_iff.mp h with h | h
      · exact hlast v' h
      · exact hother v' h

theorem Written.exists_last (h : Written wrote trace key v) :
    ∃ v', LastWritten wrote trace key v' := by
  induction trace using List.reverseRecOn with
  | nil =>
      obtain ⟨call, hmem, -⟩ := h
      cases hmem
  | append_singleton trace call ih =>
      simp only [lastWritten_concat_iff]
      by_cases hnow : ∃ v', wrote call.1 call.2 key v'
      · obtain ⟨v', hwrote⟩ := hnow
        exact ⟨v', .inl hwrote⟩
      · rcases Written.append_iff.mp h with hpast | hwrote
        · obtain ⟨v', hlast⟩ := ih hpast
          exact ⟨v', .inr ⟨hlast, fun v'' hwrote => hnow ⟨v'', hwrote⟩⟩⟩
        · exact absurd ⟨v, hwrote⟩ hnow

theorem lastWritten_cons_iff : LastWritten wrote (call :: trace) key v ↔
    LastWritten wrote trace key v ∨
      wrote call.1 call.2 key v ∧ ∀ v', ¬ Written wrote trace key v' := by
  constructor
  · rintro ⟨before, call', after, hsplit, hwrote, hlast⟩
    cases before with
    | nil =>
        obtain ⟨rfl, rfl⟩ := List.cons.inj hsplit
        exact .inr ⟨hwrote, hlast⟩
    | cons first before =>
        obtain ⟨rfl, rfl⟩ := List.cons.inj hsplit
        exact .inl ⟨before, call', after, rfl, hwrote, hlast⟩
  · rintro (⟨before, call', after, rfl, hwrote, hlast⟩ | ⟨hwrote, hlast⟩)
    · exact ⟨call :: before, call', after, rfl, hwrote, hlast⟩
    · exact ⟨[], call, trace, rfl, hwrote, hlast⟩

/-- Traces that write the same, call by call, agree on the last write. -/
theorem lastWritten_iff_of_forall₂ {ρ' ω' : Type*} {wrote' : ρ' → ω' → κ → ν → Prop}
    {trace' : List (ρ' × ω')}
    (h : List.Forall₂ (fun call call' => ∀ key v,
      wrote call.1 call.2 key v ↔ wrote' call'.1 call'.2 key v) trace trace')
    (key : κ) (v : ν) :
    LastWritten wrote trace key v ↔ LastWritten wrote' trace' key v := by
  have hwritten {trace : List (ρ × ω)} {trace' : List (ρ' × ω')}
      (h : List.Forall₂ (fun call call' => ∀ key v,
        wrote call.1 call.2 key v ↔ wrote' call'.1 call'.2 key v) trace trace') (v : ν) :
      Written wrote trace key v ↔ Written wrote' trace' key v := by
    induction h with
    | nil => exact iff_of_false nofun nofun
    | cons hcall _ ih =>
        simp only [Written, List.exists_mem_cons_iff] at ih ⊢
        rw [hcall, ih]
  induction h with
  | nil => exact iff_of_false (nomatch ·.written) (nomatch ·.written)
  | cons hcall hrest ih =>
      rw [lastWritten_cons_iff, lastWritten_cons_iff]
      simp only [ih, hcall, hwritten hrest]

end LastWritten

/-- What is stored is what was written last. -/
theorem Filled.stored_iff (h : Filled M stored wrote) (hempty : ∀ key, stored s key = none)
    (requests : List ρ) (key : κ) (v : ν) :
    stored (M.finalState s requests) key = some v ↔
      LastWritten wrote (M.trace s requests) key v := by
  refine M.invariant_history
    (I := fun past s => ∀ key v, stored s key = some v ↔ LastWritten wrote past key v)
    (fun key v => ?_) (fun past s r ih key v => ?_) requests key v
  · rw [hempty key]
    refine iff_of_false nofun fun hlast => ?_
    obtain ⟨call, hmem, -⟩ := hlast.written
    cases hmem
  · rw [lastWritten_concat_iff]
    by_cases hnow : ∃ v', wrote r (M s r).1 key v'
    · obtain ⟨v', hwrote⟩ := hnow
      rw [h.written s r key v' hwrote]
      constructor
      · rintro ⟨⟩
        exact .inl hwrote
      · rintro (hwrote' | ⟨-, hother⟩)
        · rw [← h.written s r key v' hwrote, h.written s r key v hwrote']
        · exact absurd hwrote (hother v')
    · rw [(h.kept s r key).resolve_right hnow, ih]
      refine ⟨fun hlast => .inr ⟨hlast, fun v' hwrote => hnow ⟨v', hwrote⟩⟩, ?_⟩
      rintro (hwrote | ⟨hlast, -⟩)
      · exact absurd ⟨v, hwrote⟩ hnow
      · exact hlast

end Foundation

import CommitCloud.Foundation.Program
import CommitCloud.Foundation.Reactive
import Mathlib.Data.List.Nodup
import Mathlib.Logic.Function.Basic

/-!
# Linearizability

Calls run concurrently: each is invoked with a request, makes the accesses of
its program one by one, and responds.  A sequential machine is linearized by
such executions when every one of them can be explained by handling whole calls
one after the other, in an order that respects which calls returned before
which were invoked.

The rule asks for a predicate on the calls that are under way.  It must say
that running the rest of the call now does what handling it now would do, it
must survive the handling of other requests, and an access that is not the last
one must change nothing.  A call then takes effect with its last access.
-/

namespace Foundation

universe u

variable {κ ρ : Type*} {σ ω : Type u}

/-! ## Concurrent executions -/

inductive Phase (σ ω : Type u) : Type (u + 1) where
  | idle
  | running (rest : Program σ ω)
  | returned

inductive Event (κ ρ : Type*) (ω : Type u) where
  | invoke (call : κ) (request : ρ)
  | access (call : κ)
  | respond (call : κ) (answer : ω)

structure Config (κ : Type*) (σ ω : Type u) where
  store : σ
  phase : κ → Phase σ ω

namespace Config

def start (κ : Type*) (ω : Type u) (store : σ) : Config κ σ ω where
  store := store
  phase := fun _ => .idle

variable [DecidableEq κ]

def setPhase (c : Config κ σ ω) (call : κ) (phase : Phase σ ω) : Config κ σ ω :=
  { c with phase := Function.update c.phase call phase }

@[simp] theorem store_setPhase (c : Config κ σ ω) (call : κ) (phase : Phase σ ω) :
    (c.setPhase call phase).store = c.store := rfl

@[simp] theorem phase_setPhase_self (c : Config κ σ ω) (call : κ)
    (phase : Phase σ ω) : (c.setPhase call phase).phase call = phase :=
  Function.update_self ..

@[simp] theorem phase_setPhase_of_ne {call call' : κ} (h : call' ≠ call)
    (c : Config κ σ ω) (phase : Phase σ ω) :
    (c.setPhase call phase).phase call' = c.phase call' :=
  Function.update_of_ne h ..

/-- A call in another phase than the one just set is another call. -/
theorem phase_of_setPhase {c : Config κ σ ω} {call call' : κ}
    {phase phase' : Phase σ ω} (h : (c.setPhase call phase).phase call' = phase')
    (hne : phase' ≠ phase) :
    call' ≠ call ∧ c.phase call' = phase' := by
  have hcall : call' ≠ call := by
    rintro rfl
    exact hne (h.symm.trans (phase_setPhase_self ..))
  exact ⟨hcall, (phase_setPhase_of_ne hcall ..).symm.trans h⟩

inductive Step (program : ρ → Program σ ω) (c : Config κ σ ω) :
    Event κ ρ ω → Config κ σ ω → Prop where
  | invoke {call : κ} {request : ρ} (hphase : c.phase call = .idle) :
      Step program c (.invoke call request)
        (c.setPhase call (.running (program request)))
  | access {call : κ} {β : Type u} {method : σ → β × σ}
      {next : β → Program σ ω}
      (hphase : c.phase call = .running (.access method next)) :
      Step program c (.access call)
        ({ c with store := (method c.store).2 }.setPhase call
          (.running (next (method c.store).1)))
  | respond {call : κ} {answer : ω}
      (hphase : c.phase call = .running (.done answer)) :
      Step program c (.respond call answer) (c.setPhase call .returned)

inductive Exec (program : ρ → Program σ ω) (c : Config κ σ ω) :
    List (Event κ ρ ω) → Config κ σ ω → Prop where
  | nil : Exec program c [] c
  | snoc {events : List (Event κ ρ ω)} {event : Event κ ρ ω}
      {c' c'' : Config κ σ ω} (hexec : Exec program c events c')
      (hstep : Step program c' event c'') :
      Exec program c (events ++ [event]) c''

end Config

/-- One call responded before the other was invoked. -/
def Precedes (events : List (Event κ ρ ω)) (call call' : κ) : Prop :=
  ∃ before after answer request, events = before ++ .respond call answer :: after ∧
    .invoke call' request ∈ after

/-! ## Sequential explanations -/

/-- The calls of an execution in an order that explains it. -/
structure Linearizes (M : Reactive σ ρ ω) (s : σ) (events : List (Event κ ρ ω))
    (c : Config κ σ ω) (order : List (κ × ρ × ω)) : Prop where
  answers : M.trace s (order.map fun entry => entry.2.1) = order.map Prod.snd
  store : M.finalState s (order.map fun entry => entry.2.1) = c.store
  nodup : (order.map Prod.fst).Nodup
  invoked : ∀ call request answer, (call, request, answer) ∈ order →
    .invoke call request ∈ events
  settled : ∀ call request answer, (call, request, answer) ∈ order →
    .respond call answer ∈ events ∨ c.phase call = .running (.done answer)
  responses : ∀ call answer, .respond call answer ∈ events →
    ∃ request, (call, request, answer) ∈ order
  realTime : ∀ call call', Precedes events call call' →
    call' ∈ order.map Prod.fst → [call, call'].Sublist (order.map Prod.fst)

/-- What `pending` must say about the calls that are under way. -/
structure LastAccessRule (M : Reactive σ ρ ω) (program : ρ → Program σ ω)
    (pending : ρ → Program σ ω → σ → Prop) : Prop where
  start : ∀ r s, pending r (program r) s
  run : ∀ r p s, pending r p s → p.run s = M s r
  next : ∀ {β : Type u} (r : ρ) (method : σ → β × σ) (next : β → Program σ ω)
    (s : σ), pending r (.access method next) s →
    (∃ answer, next (method s).1 = .done answer) ∨
      (method s).2 = s ∧ pending r (next (method s).1) s
  stable : ∀ r r' p s, pending r p s → pending r p (M s r').2

/-! ## The order of responses and invocations -/

theorem Precedes.responded {events : List (Event κ ρ ω)} {call call' : κ}
    (h : Precedes events call call') :
    ∃ answer, .respond call answer ∈ events := by
  obtain ⟨before, after, answer, request, rfl, -⟩ := h
  exact ⟨answer, by simp⟩

theorem Precedes.of_concat {events : List (Event κ ρ ω)} {event : Event κ ρ ω}
    {call call' : κ} (h : Precedes (events ++ [event]) call call') :
    Precedes events call call' ∨
      (∃ answer, .respond call answer ∈ events) ∧
        ∃ request, event = .invoke call' request := by
  obtain ⟨before, after, answer, request, hsplit, hmem⟩ := h
  -- something follows the response, so the new event is not the response
  obtain ⟨after, last, rfl⟩ : ∃ after' last, after = after' ++ [last] := by
    rcases List.eq_nil_or_concat after with rfl | ⟨after', last, rfl⟩
    · cases hmem
    · exact ⟨after', last, List.concat_eq_append⟩
  rw [← List.cons_append, ← List.append_assoc] at hsplit
  obtain ⟨rfl, hlast⟩ := List.append_inj' hsplit rfl
  obtain rfl := List.singleton_inj.mp hlast
  rcases List.mem_append.mp hmem with hmem | hmem
  · exact .inl ⟨before, after, answer, request, rfl, hmem⟩
  · exact .inr ⟨⟨answer, by simp⟩, request, (List.mem_singleton.mp hmem).symm⟩

theorem pair_sublist_concat {calls : List κ} {call call' : κ}
    (h : call ∈ calls) : [call, call'].Sublist (calls ++ [call']) :=
  (List.singleton_sublist.mpr h).append (List.Sublist.refl [call'])

/-! ## The invariant of an execution -/

structure Explains (M : Reactive σ ρ ω) (pending : ρ → Program σ ω → σ → Prop)
    (s : σ) (events : List (Event κ ρ ω)) (c : Config κ σ ω)
    (order : List (κ × ρ × ω)) : Prop extends
    Linearizes M s events c order where
  idle : ∀ call, c.phase call = .idle → ∀ request, .invoke call request ∉ events
  underWay : ∀ {β : Type u} call (method : σ → β × σ) next,
    c.phase call = .running (.access method next) →
    call ∉ order.map Prod.fst ∧ ∃ request, .invoke call request ∈ events ∧
      pending request (.access method next) c.store
  done : ∀ call answer, c.phase call = .running (.done answer) →
    ∃ request, (call, request, answer) ∈ order

section Invariant

variable {M : Reactive σ ρ ω} {program : ρ → Program σ ω}
  {pending : ρ → Program σ ω → σ → Prop} {s : σ}
  {events : List (Event κ ρ ω)} {c c' : Config κ σ ω}
  {order : List (κ × ρ × ω)} {event : Event κ ρ ω}

theorem explains_start (M : Reactive σ ρ ω)
    (pending : ρ → Program σ ω → σ → Prop) (s : σ) :
    Explains M pending s [] (Config.start κ ω s) [] where
  answers := rfl
  store := rfl
  nodup := List.nodup_nil
  invoked _ _ _ h := by cases h
  settled _ _ _ h := by cases h
  responses _ _ h := by cases h
  realTime _ _ _ h := by cases h
  idle _ _ _ h := by cases h
  underWay _ _ _ h := by cases h
  done _ _ h := by cases h

theorem Linearizes.mem_of_responded (h : Linearizes M s events c order)
    {call : κ} (hresponded : ∃ answer, .respond call answer ∈ events) :
    call ∈ order.map Prod.fst := by
  obtain ⟨answer, hresponse⟩ := hresponded
  obtain ⟨request, hmem⟩ := h.responses call answer hresponse
  exact List.mem_map_of_mem hmem

theorem Linearizes.realTime_concat (h : Linearizes M s events c order)
    (hfresh : ∀ call request, event = .invoke call request →
      call ∉ order.map Prod.fst) {call call' : κ}
    (hprecedes : Precedes (events ++ [event]) call call')
    (hmem : call' ∈ order.map Prod.fst) :
    [call, call'].Sublist (order.map Prod.fst) := by
  rcases hprecedes.of_concat with hprecedes | ⟨-, request, hevent⟩
  · exact h.realTime call call' hprecedes hmem
  · exact absurd hmem (hfresh call' request hevent)

theorem Explains.fresh_of_idle (h : Explains M pending s events c order)
    {call : κ} (hidle : c.phase call = .idle) : call ∉ order.map Prod.fst := by
  rintro hmem
  obtain ⟨⟨_, request, answer⟩, hentry, rfl⟩ := List.mem_map.mp hmem
  exact h.idle _ hidle request (h.invoked _ request answer hentry)

/-! ## One step of an execution -/

/-- The event starts the call or makes one of its accesses. -/
def Event.Drives (event : Event κ ρ ω) (call : κ) (request : ρ) : Prop :=
  event = .invoke call request ∨ event = .access call

section Drives

variable {call call' : κ} {request request' : ρ} {answer : ω}

theorem Event.Drives.respond_mem (h : event.Drives call request)
    (hmem : .respond call' answer ∈ events ++ [event]) :
    .respond call' answer ∈ events := by
  rcases List.mem_append.mp hmem with hmem | hmem
  · exact hmem
  · rcases h with rfl | rfl <;> simp at hmem

theorem Event.Drives.invoke_mem (h : event.Drives call request)
    (hcall : call' ≠ call)
    (hmem : .invoke call' request' ∈ events ++ [event]) :
    .invoke call' request' ∈ events := by
  rcases List.mem_append.mp hmem with hmem | hmem
  · exact hmem
  · rcases h with rfl | rfl <;> simp [hcall] at hmem

theorem Event.Drives.call_eq (h : event.Drives call request)
    (hinvoke : event = .invoke call' request') : call' = call := by
  rcases h with rfl | rfl
  · exact (Event.invoke.inj hinvoke).1.symm
  · cases hinvoke

end Drives

variable [DecidableEq κ] {call : κ} {request : ρ} {answer : ω}

theorem Explains.takeEffect (h : Explains M pending s events c order)
    (hrule : LastAccessRule M program pending) {store : σ}
    (hnew : call ∉ order.map Prod.fst) (hevent : event.Drives call request)
    (hinvoked : .invoke call request ∈ events ++ [event])
    (hresult : M c.store request = (answer, store)) :
    Explains M pending s (events ++ [event])
      ({ c with store := store }.setPhase call (.running (.done answer)))
      (order ++ [(call, request, answer)]) where
  answers := by
    rw [List.map_append, List.map_append, Reactive.trace_append, h.answers, h.store]
    simp [hresult]
  store := by
    rw [List.map_append, Reactive.finalState_append, h.store]
    simp [hresult]
  nodup := by
    rw [List.map_append]
    exact h.nodup.append (List.nodup_singleton _) (by simpa using hnew)
  invoked call' request' answer' hentry := by
    rcases List.mem_append.mp hentry with hold | hlast
    · exact List.mem_append_left _ (h.invoked _ _ _ hold)
    · obtain ⟨rfl, rfl, rfl⟩ := by simpa using hlast
      exact hinvoked
  settled call' request' answer' hentry := by
    rcases List.mem_append.mp hentry with hold | hlast
    · have hne : call' ≠ call := by
        rintro rfl
        exact hnew (List.mem_map_of_mem hold)
      rcases h.settled _ _ _ hold with hresponse | hphase
      · exact .inl (List.mem_append_left _ hresponse)
      · exact .inr (by simpa [hne] using hphase)
    · obtain ⟨rfl, rfl, rfl⟩ := by simpa using hlast
      exact .inr (Config.phase_setPhase_self ..)
  responses call' answer' hresponse := by
    obtain ⟨request', hentry⟩ := h.responses _ _ (hevent.respond_mem hresponse)
    exact ⟨request', List.mem_append_left _ hentry⟩
  realTime call₁ call₂ hprecedes hmem := by
    rw [List.map_append] at hmem ⊢
    rcases List.mem_append.mp hmem with hmem | hmem
    · refine (h.realTime_concat (fun call' _ hinvoke => ?_) hprecedes hmem).trans
        (List.sublist_append_left _ _)
      rwa [hevent.call_eq hinvoke]
    · obtain rfl := List.mem_singleton.mp hmem
      refine pair_sublist_concat (h.mem_of_responded ?_)
      rcases hprecedes.of_concat with hprecedes | ⟨hresponded, -⟩
      · exact hprecedes.responded
      · exact hresponded
  idle call' hphase request' hmem := by
    obtain ⟨hne, hidle⟩ := Config.phase_of_setPhase hphase nofun
    exact h.idle call' hidle request' (hevent.invoke_mem hne hmem)
  underWay call' method next hphase := by
    obtain ⟨hne, hrunning⟩ := Config.phase_of_setPhase hphase nofun
    obtain ⟨hfresh, request', hmem, hpending⟩ := h.underWay call' method next hrunning
    refine ⟨by simpa [hne] using hfresh, request', List.mem_append_left _ hmem, ?_⟩
    have hstable := hrule.stable request' request _ _ hpending
    rwa [hresult] at hstable
  done call' answer' hphase := by
    by_cases hcall : call' = call
    · subst hcall
      obtain rfl : answer = answer' := by simpa using hphase
      exact ⟨request, by simp⟩
    · obtain ⟨request', hentry⟩ :=
        h.done call' answer' (by simpa [hcall] using hphase)
      exact ⟨request', List.mem_append_left _ hentry⟩

theorem Explains.advance (h : Explains M pending s events c order)
    {β : Type u} {method : σ → β × σ} {next : β → Program σ ω}
    (hnew : call ∉ order.map Prod.fst) (hevent : event.Drives call request)
    (hinvoked : .invoke call request ∈ events ++ [event])
    (hpending : pending request (.access method next) c.store) :
    Explains M pending s (events ++ [event])
      (c.setPhase call (.running (.access method next))) order where
  answers := h.answers
  store := h.store
  nodup := h.nodup
  invoked call' request' answer' hentry :=
    List.mem_append_left _ (h.invoked _ _ _ hentry)
  settled call' request' answer' hentry := by
    have hne : call' ≠ call := by
      rintro rfl
      exact hnew (List.mem_map_of_mem hentry)
    rcases h.settled _ _ _ hentry with hresponse | hphase
    · exact .inl (List.mem_append_left _ hresponse)
    · exact .inr (by simpa [hne] using hphase)
  responses call' answer' hresponse :=
    h.responses _ _ (hevent.respond_mem hresponse)
  realTime call₁ call₂ hprecedes hmem := by
    refine h.realTime_concat (fun call' _ hinvoke => ?_) hprecedes hmem
    rwa [hevent.call_eq hinvoke]
  idle call' hphase request' hmem := by
    obtain ⟨hne, hidle⟩ := Config.phase_of_setPhase hphase nofun
    exact h.idle call' hidle request' (hevent.invoke_mem hne hmem)
  underWay call' method' next' hphase := by
    by_cases hcall : call' = call
    · subst hcall
      rw [Config.phase_setPhase_self] at hphase
      cases hphase
      exact ⟨hnew, request, hinvoked, hpending⟩
    · obtain ⟨hfresh, request', hmem, hpending'⟩ :=
        h.underWay call' method' next' (by simpa [hcall] using hphase)
      exact ⟨hfresh, request', List.mem_append_left _ hmem, hpending'⟩
  done call' answer' hphase :=
    h.done call' answer' (Config.phase_of_setPhase hphase nofun).2

theorem Explains.respond (h : Explains M pending s events c order)
    (hphase : c.phase call = .running (.done answer)) :
    Explains M pending s (events ++ [.respond call answer])
      (c.setPhase call .returned) order where
  answers := h.answers
  store := h.store
  nodup := h.nodup
  invoked call' request' answer' hentry :=
    List.mem_append_left _ (h.invoked _ _ _ hentry)
  settled call' request' answer' hentry := by
    rcases h.settled _ _ _ hentry with hresponse | hphase'
    · exact .inl (List.mem_append_left _ hresponse)
    · by_cases hcall : call' = call
      · subst hcall
        rw [hphase] at hphase'
        cases hphase'
        exact .inl (by simp)
      · exact .inr (by simpa [hcall] using hphase')
  responses call' answer' hresponse := by
    rcases List.mem_append.mp hresponse with hold | hlast
    · exact h.responses _ _ hold
    · obtain ⟨rfl, rfl⟩ := by simpa using hlast
      exact h.done call' answer' hphase
  realTime call₁ call₂ hprecedes hmem :=
    h.realTime_concat (fun _ _ hinvoke => by cases hinvoke) hprecedes hmem
  idle call' hphase' request' hmem := by
    obtain ⟨-, hidle⟩ := Config.phase_of_setPhase hphase' nofun
    rcases List.mem_append.mp hmem with hmem | hmem
    · exact h.idle call' hidle request' hmem
    · simp at hmem
  underWay call' method next hphase' := by
    obtain ⟨-, hrunning⟩ := Config.phase_of_setPhase hphase' nofun
    obtain ⟨hfresh, request', hmem, hpending⟩ := h.underWay call' method next hrunning
    exact ⟨hfresh, request', List.mem_append_left _ hmem, hpending⟩
  done call' answer' hphase' :=
    h.done call' answer' (Config.phase_of_setPhase hphase' nofun).2

theorem Explains.step (h : Explains M pending s events c order)
    (hrule : LastAccessRule M program pending)
    (hstep : Config.Step program c event c') :
    ∃ order', Explains M pending s (events ++ [event]) c' order' := by
  cases hstep with
  | @invoke call request hphase =>
      have hnew := h.fresh_of_idle hphase
      have hstart := hrule.start request c.store
      have hinvoked : .invoke call request ∈ events ++ [.invoke call request] := by
        simp
      cases hprogram : program request with
      | done answer =>
          rw [hprogram] at hstart
          exact ⟨_, h.takeEffect hrule hnew (.inl rfl) hinvoked
            (hrule.run request _ _ hstart).symm⟩
      | access method next =>
          rw [hprogram] at hstart
          exact ⟨_, h.advance hnew (.inl rfl) hinvoked hstart⟩
  | @access call β method next hphase =>
      obtain ⟨hnew, request, hmem, hpending⟩ := h.underWay call method next hphase
      have hinvoked : .invoke call request ∈ events ++ [.access call] :=
        List.mem_append_left _ hmem
      cases hnext : next (method c.store).1 with
      | done answer =>
          -- the last access: the call takes effect now
          have hrun := hrule.run request _ _ hpending
          rw [Program.run_access, hnext, Program.run_done] at hrun
          exact ⟨_, h.takeEffect hrule hnew (.inr rfl) hinvoked hrun.symm⟩
      | access method' next' =>
          obtain ⟨answer, hdone⟩ | ⟨hsilent, hpending'⟩ :=
            hrule.next request method next c.store hpending
          · rw [hnext] at hdone
            cases hdone
          · rw [hnext] at hpending'
            rw [hsilent]
            exact ⟨_, h.advance hnew (.inr rfl) hinvoked hpending'⟩
  | respond hphase => exact ⟨_, h.respond hphase⟩

end Invariant

/-! ## The rule -/

/-- Programs that take effect with their last access are linearizable. -/
theorem LastAccessRule.linearizable [DecidableEq κ] {M : Reactive σ ρ ω}
    {program : ρ → Program σ ω} {pending : ρ → Program σ ω → σ → Prop}
    (hrule : LastAccessRule M program pending) {s : σ}
    {events : List (Event κ ρ ω)} {c : Config κ σ ω}
    (hexec : Config.Exec program (Config.start κ ω s) events c) :
    ∃ order, Linearizes M s events c order := by
  have hexplains : ∃ order, Explains M pending s events c order := by
    induction hexec with
    | nil => exact ⟨_, explains_start M pending s⟩
    | snoc _ hstep ih =>
        obtain ⟨order, h⟩ := ih
        exact h.step hrule hstep
  obtain ⟨order, h⟩ := hexplains
  exact ⟨order, h.toLinearizes⟩

/-- The answer to a call is that of the machine, which was given the calls before it. -/
theorem Linearizes.answer_eq {M : Reactive σ ρ ω} {s : σ} {events : List (Event κ ρ ω)}
    {c : Config κ σ ω} {before after : List (κ × ρ × ω)} {call : κ} {request : ρ}
    {answer : ω} (h : Linearizes M s events c (before ++ (call, request, answer) :: after)) :
    (M (M.finalState s (before.map fun entry => entry.2.1)) request).1 = answer := by
  have hanswers := h.answers
  rw [List.map_append, List.map_append, List.map_cons, List.map_cons, M.trace_append,
    M.trace_cons] at hanswers
  obtain ⟨-, hrest⟩ := List.append_inj hanswers (by simp)
  exact congrArg Prod.snd (List.cons.inj hrest).1

/-- Only one answer is responded to a call, the one of the explanation. -/
theorem Linearizes.answer_unique {M : Reactive σ ρ ω} {s : σ} {events : List (Event κ ρ ω)}
    {c : Config κ σ ω} {order : List (κ × ρ × ω)} (h : Linearizes M s events c order)
    {call : κ} {request : ρ} {answer answer' : ω} (hmem : (call, request, answer) ∈ order)
    (hresponse : .respond call answer' ∈ events) : answer' = answer := by
  obtain ⟨request', hmem'⟩ := h.responses call answer' hresponse
  have hsame := List.inj_on_of_nodup_map h.nodup hmem' hmem rfl
  exact congrArg (fun entry => entry.2.2) hsame

end Foundation

import CommitCloud.Foundation.Linearizable
import CommitCloud.Server.Programs

/-!
# Concurrent handlers

Handlers run concurrently and interleave between their accesses.  A handler
that finds its repository registered takes effect with its access to a table,
for the repository is registered then as well; one that does not takes effect
with the check.  So every execution can be explained by handling whole requests
one after the other.
-/

namespace CommitCloud.Server

open Foundation

variable {P : Platform} {s : MemoryStore} {req : Request}

theorem program_shape (P : Platform) (req : Request) :
    (∃ action body, program P req = gated req.repoId action body ∧
      body.AtMostOnce) ∨ (program P req).AtMostOnce := by
  cases req with
  | registerRepository req uuid => exact .inr (.once _ _)
  | readSymlink req => exact .inr (.done _)
  | writeSymlink req => exact .inr (.done _)
  | writeCommit req =>
      refine .inl ⟨_, _, rfl, ?_⟩
      cases req.commit with
      | none => exact .done _
      | some commit =>
          cases hid : BackendService.commitIdOf P commit with
          | none => simpa only [hid] using .done _
          | some id => simpa only [hid] using .once _ _
  | readTree req =>
      refine .inl ⟨_, _, rfl, ?_⟩
      split
      · exact .done _
      · exact .once _ _
  | writeTree req =>
      refine .inl ⟨_, _, rfl, ?_⟩
      cases computeGitTreeHash P req.entries with
      | none => exact .done _
      | some id => exact .once _ _
  | writeOperation req =>
      obtain ⟨repoId, op⟩ := req
      cases op with
      | none => exact .inr (.done _)
      | some op => exact .inl ⟨_, _, rfl, .once _ _⟩
  | writeView req =>
      obtain ⟨repoId, view⟩ := req
      cases view with
      | none => exact .inr (.done _)
      | some view => exact .inl ⟨_, _, rfl, .once _ _⟩
  | _ => exact .inl ⟨_, _, rfl, .once _ _⟩

/-- What is left of a handler that is under way. -/
inductive Pending (P : Platform) (req : Request) :
    Program MemoryStore Answer → MemoryStore → Prop where
  | invoked (s : MemoryStore) : Pending P req (program P req) s
  | admitted {action : String} {body : Program MemoryStore Answer}
      {s : MemoryStore} (hprogram : program P req = gated req.repoId action body)
      (hbody : body.AtMostOnce) (hreg : s.isRepoRegistered req.repoId) :
      Pending P req body s

theorem Pending.run_eq {rest : Program MemoryStore Answer}
    (h : Pending P req rest s) : rest.run s = server P s req := by
  cases h with
  | invoked => exact run_program P req s
  | admitted hprogram hbody hreg =>
      rw [← run_program, hprogram, run_gated, if_pos hreg]

theorem Pending.server {rest : Program MemoryStore Answer}
    (h : Pending P req rest s) (req' : Request) :
    Pending P req rest (server P s req').2 := by
  cases h with
  | invoked => exact .invoked _
  | admitted hprogram hbody hreg =>
      exact .admitted hprogram hbody ((server_step P s req').isRepoRegistered hreg)

theorem Pending.next {β : Type} {method : MemoryStore → β × MemoryStore}
    {next : β → Program MemoryStore Answer}
    (h : Pending P req (.access method next) s) :
    (∃ answer, next (method s).1 = .done answer) ∨
      (method s).2 = s ∧ Pending P req (next (method s).1) s := by
  generalize hrest : Program.access method next = rest at h
  cases h with
  | admitted hprogram hbody hreg =>
      exact .inl ((hrest ▸ hbody).next_done _)
  | invoked =>
      rcases program_shape P req with ⟨action, body, hprogram, hbody⟩ | honce
      · -- the check: it fails for good, or the body is left and may run now
        rw [hprogram, gated] at hrest
        cases hrest
        cases hreg : s.isRepoRegistered req.repoId with
        | false =>
            left
            refine ⟨refuse .notFound (unregisteredMessage action req.repoId), ?_⟩
            simp only [observe, hreg, cond_false]
        | true =>
            refine .inr ⟨rfl, ?_⟩
            simp only [observe, hreg, cond_true]
            exact .admitted hprogram hbody hreg
      · exact .inl ((hrest ▸ honce).next_done _)

theorem lastAccessRule (P : Platform) :
    LastAccessRule (server P) (program P) (Pending P) where
  start _ s := .invoked s
  run _ _ _ h := h.run_eq
  next _ _ _ _ h := h.next
  stable _ r' _ _ h := h.server r'

/--
Handlers are linearizable: whichever way they interleave, handling the requests
one after the other in some order gives every call the same answer and ends in
the same store.
-/
theorem handlers_linearizable {κ : Type*} [DecidableEq κ] {s : MemoryStore}
    {events : List (Event κ Request Answer)} {c : Config κ MemoryStore Answer}
    (hexec : Config.Exec (program P) (Config.start κ Answer s) events c) :
    ∃ order, Linearizes (server P) s events c order :=
  (lastAccessRule P).linearizable hexec

/-- A repository is registered while its heads are being requested. -/
def overlappingCalls : List (Event Bool Request Answer) :=
  [.invoke false (.getOpHeads ⟨"repo"⟩),
    .invoke true (.registerRepository {} "repo"), .access true, .access false,
    .respond true (.ok (.registerRepository ⟨"repo"⟩)), .access false,
    .respond false (.ok (.getOpHeads ⟨[rootOperationIdBytes]⟩))]

theorem handlers_linearizable_overlappingCalls :
    ∃ c order, Linearizes (server .reference) MemoryStore.new overlappingCalls c
      order := by
  have hinvoked : Config.Exec (program .reference)
      (Config.start Bool Answer MemoryStore.new)
      ([] ++ [.invoke false (.getOpHeads ⟨"repo"⟩)] ++
        [.invoke true (.registerRepository {} "repo")]) _ :=
    .snoc (.snoc .nil (.invoke rfl)) (.invoke rfl)
  have hregistered : Config.Exec _ _ (_ ++ [.access true]) _ :=
    hinvoked.snoc (.access rfl)
  have hchecked : Config.Exec _ _ (_ ++ [.access false]) _ :=
    hregistered.snoc (.access rfl)
  have hresponded : Config.Exec _ _ (_ ++ [.respond true _]) _ :=
    hchecked.snoc (.respond rfl)
  have hread : Config.Exec _ _ (_ ++ [.access false]) _ :=
    hresponded.snoc (.access rfl)
  have hanswered : Config.Exec _ _ (_ ++ [.respond false _]) _ :=
    hread.snoc (.respond rfl)
  exact ⟨_, handlers_linearizable hanswered⟩

end CommitCloud.Server

import CommitCloud.Client.Refinement
import CommitCloud.Foundation.Provenance

/-!
# What a read gives, by the history

A read can be told from the calls before it alone: it gives the value that was
written last under its id, as it is read back, whichever client wrote it.
-/

namespace CommitCloud.Client

open Foundation CommitCloud.Server

variable {J : JjLib} {P : Platform} {B : JjBackend}

/-! ## Steps of the cloud -/

inductive CloudStep (P : Platform) (c : Cloud J) :
    Command J → CloudAnswer J → Cloud J → Prop where
  | created (repoId : RepoId) :
      CloudStep P c (.create repoId) (.ok (.created repoId)) (c.register repoId)
  | written (repoId : RepoId) (v : Value J) (id : Bytes) (hsent : v.isEmptyTree = false)
      (hreg : c.registered repoId) (hid : v.id? P = some id) :
      CloudStep P c (.write repoId v) (.ok (.written id)) (c.put ⟨v.kind, repoId, id⟩ v)
  | published (repoId : RepoId) (oldIds : List OpId) (newId : OpId)
      (hreg : c.registered repoId) :
      CloudStep P c (.publish repoId oldIds newId) (.ok .published)
        (c.publish repoId oldIds newId)
  | unchanged (command : Command J) (answer : CloudAnswer J)
      (hcreate : ∀ repoId, command ≠ .create repoId)
      (hwrite : ∀ repoId v id, command = .write repoId v → answer = .ok (.written id) →
        v.isEmptyTree)
      (hpublish : ∀ repoId oldIds newId, command = .publish repoId oldIds newId →
        answer ≠ .ok .published) :
      CloudStep P c command answer c

theorem CloudStep.read (c : Cloud J) (key : Key) (answer : CloudAnswer J) :
    CloudStep P c (.read key) answer c :=
  .unchanged _ _ nofun nofun nofun

theorem CloudStep.getHeads (c : Cloud J) (repoId : RepoId) (answer : CloudAnswer J) :
    CloudStep P c (.getHeads repoId) answer c :=
  .unchanged _ _ nofun nofun nofun

theorem CloudStep.writeUnsent (c : Cloud J) (repoId : RepoId) {v : Value J}
    (hempty : v.isEmptyTree) (answer : CloudAnswer J) :
    CloudStep P c (.write repoId v) answer c := by
  refine .unchanged _ _ nofun (fun _ _ _ heq _ => ?_) nofun
  cases heq
  exact hempty

theorem CloudStep.writeRefused (c : Cloud J) (repoId : RepoId) (v : Value J)
    (refusal : Refusal) : CloudStep P c (.write repoId v) (.error refusal) c :=
  .unchanged _ _ nofun nofun nofun

theorem CloudStep.publishRefused (c : Cloud J) (repoId : RepoId) (oldIds : List OpId)
    (newId : OpId) (refusal : Refusal) :
    CloudStep P c (.publish repoId oldIds newId) (.error refusal) c :=
  .unchanged _ _ nofun nofun nofun

theorem cloud_read_state (c : Cloud J) (key : Key) :
    (cloud J P B c (.read key)).2 = c := by
  simp only [cloud]
  split
  · rfl
  · split
    · split <;> rfl
    · rfl

theorem cloud_step (c : Cloud J) (command : Command J) :
    CloudStep P c command (cloud J P B c command).1 (cloud J P B c command).2 := by
  cases command with
  | create repoId => exact .created repoId
  | read key =>
      rw [cloud_read_state]
      exact .read c key _
  | write repoId v =>
      simp only [cloud]
      cases hempty : v.isEmptyTree with
      | true => exact .writeUnsent c repoId hempty _
      | false =>
          cases v.supported with
          | false => exact .writeRefused c repoId v _
          | true =>
              cases hreg : c.registered repoId with
              | false => exact .writeRefused c repoId v _
              | true =>
                  cases hid : v.id? P with
                  | none => exact .writeRefused c repoId v _
                  | some id => exact .written repoId v id hempty hreg hid
  | getHeads repoId =>
      simp only [cloud]
      split <;> exact .getHeads c repoId _
  | publish repoId oldIds newId =>
      simp only [cloud]
      split
      next hreg => exact .published repoId oldIds newId hreg
      next => exact .publishRefused c repoId oldIds newId _

/-- The value was stored under the key.  The empty tree is not sent. -/
inductive Stored : Command J → CloudAnswer J → Key → Value J → Prop where
  | mk (repoId : RepoId) (v : Value J) (id : Bytes) (hsent : v.isEmptyTree = false) :
      Stored (.write repoId v) (.ok (.written id)) ⟨v.kind, repoId, id⟩ v

section Steps

variable {c c' : Cloud J} {command : Command J} {answer : CloudAnswer J} {key : Key}
  {v : Value J}

theorem CloudStep.objects_of_stored (h : CloudStep P c command answer c')
    (hstored : Stored command answer key v) : c'.objects key = some v := by
  cases hstored with
  | mk repoId v id hsent =>
      cases h with
      | written => exact c.objects_put_self _ v
      | unchanged _ _ _ hwrite =>
          exact absurd (hwrite repoId v id rfl rfl) (by simp [hsent])

theorem CloudStep.objects (h : CloudStep P c command answer c') (key : Key) :
    c'.objects key = c.objects key ∨ ∃ v, Stored command answer key v := by
  cases h with
  | written repoId v id hsent =>
      by_cases hkey : key = ⟨v.kind, repoId, id⟩
      · subst hkey
        exact .inr ⟨v, .mk repoId v id hsent⟩
      · exact .inl (c.objects_put_of_ne hkey v)
  | _ => exact .inl rfl

theorem CloudStep.registered_iff (h : CloudStep P c command answer c') (repoId : RepoId) :
    c'.registered repoId ↔ c.registered repoId ∨ command = .create repoId := by
  cases h with
  | created repoId' =>
      by_cases hrepo : repoId = repoId'
      · simp [hrepo]
      · simp [hrepo, Ne.symm hrepo]
  | unchanged _ _ hcreate => simp [hcreate repoId]
  | _ => simp [Cloud.put, Cloud.publish]

end Steps

theorem filled_objects : Filled (cloud J P B) Cloud.objects Stored where
  written c command _ _ hstored := (cloud_step c command).objects_of_stored hstored
  kept c command key := (cloud_step c command).objects key

theorem registered_cloud_iff (commands : List (Command J)) (repoId : RepoId) :
    ((cloud J P B).finalState Cloud.new commands).registered repoId ↔
      .create repoId ∈ commands := by
  induction commands using List.reverseRecOn with
  | nil => exact iff_of_false nofun nofun
  | append_singleton commands command ih =>
      rw [Reactive.finalState_concat, (cloud_step _ command).registered_iff, ih,
        List.mem_append, List.mem_singleton, eq_comm (a := command)]

/-- The value was sent to the repository and got the id of the key. -/
structure Housed (P : Platform) (c : Cloud J) (key : Key) (v : Value J) : Prop where
  registered : c.registered key.repoId
  kind : v.kind = key.kind
  sent : v.isEmptyTree = false
  id : v.id? P = some key.id

theorem CloudStep.housed {c c' : Cloud J} {command : Command J} {answer : CloudAnswer J}
    (h : CloudStep P c command answer c')
    (hhoused : ∀ key v, c.objects key = some v → Housed P c key v) {key : Key} {v : Value J}
    (hobject : c'.objects key = some v) : Housed P c' key v := by
  have hkept {repoId : RepoId} (hreg : c.registered repoId) : c'.registered repoId :=
    (h.registered_iff repoId).mpr (.inl hreg)
  have hbefore (hobject : c.objects key = some v) : Housed P c' key v := by
    obtain ⟨hreg, hkind, hsent, hid⟩ := hhoused key v hobject
    exact ⟨hkept hreg, hkind, hsent, hid⟩
  cases h with
  | written repoId v' id hsent hreg hid =>
      by_cases hkey : key = ⟨v'.kind, repoId, id⟩
      · subst hkey
        rw [c.objects_put_self] at hobject
        obtain rfl := Option.some.inj hobject
        exact ⟨hkept hreg, rfl, hsent, hid⟩
      · rw [c.objects_put_of_ne hkey] at hobject
        exact hbefore hobject
  | _ => exact hbefore hobject

theorem housed_of_object (commands : List (Command J)) {key : Key} {v : Value J}
    (hobject : ((cloud J P B).finalState Cloud.new commands).objects key = some v) :
    Housed P ((cloud J P B).finalState Cloud.new commands) key v :=
  (cloud J P B).invariant
    (I := fun c => ∀ key v, c.objects key = some v → Housed P c key v)
    Table.forall_empty
    (fun c command _ ih _ _ hobject => (cloud_step c command).housed ih hobject)
    key v hobject

section Reads

variable {c : Cloud J} {key : Key}

theorem cloud_read_builtIn {v : Value J} (h : builtIn J B key = some v) :
    (cloud J P B c (.read key)).1 = .ok (.value v) := by
  simp only [cloud, h]

theorem cloud_read_registered (h : builtIn J B key = none) (hreg : c.registered key.repoId) :
    (cloud J P B c (.read key)).1 =
      (c.readable key).elim (.error .notFound) (.ok ∘ .value) := by
  simp only [cloud, h, hreg, if_true]
  cases c.readable key <;> rfl

theorem cloud_read_unregistered (h : builtIn J B key = none)
    (hreg : ¬ c.registered key.repoId) :
    (cloud J P B c (.read key)).1 = .error .notFound := by
  simp only [cloud, h, if_neg hreg]

end Reads

/-! ## The history of a run of clients -/

/-- The call was told that the value is stored under the key. -/
def Wrote (call : Call J) (outcome : Outcome J) (key : Key) (v : Value J) : Prop :=
  call.command = .write key.repoId v ∧ v.kind = key.kind ∧ v.isEmptyTree = false ∧
    outcome.answer = some (.ok (.written key.id))

theorem wrote_iff_stored {call : Call J} {outcome : Outcome J} {answer : CloudAnswer J}
    (htells : Tells outcome answer) {key : Key} {v : Value J} :
    Wrote call outcome key v ↔ Stored call.command answer key v := by
  obtain ⟨told, htold, hsame⟩ := htells
  constructor
  · rintro ⟨hcommand, hkind, hsent, hanswer⟩
    rw [htold] at hanswer
    obtain rfl := Option.some.inj hanswer
    obtain ⟨kind, repoId, id⟩ := key
    obtain rfl : v.kind = kind := hkind
    cases hsame with
    | same => exact hcommand ▸ .mk repoId v id hsent
  · intro hstored
    generalize hcommand : call.command = command at hstored
    cases hstored with
    | mk repoId v id hsent =>
        cases hsame with
        | same => exact ⟨hcommand, rfl, hsent, htold⟩

/-- The last value written under a key is the object there. -/
theorem lastWritten_iff_object (hkeeps : KeepsValues B) (calls : List (Call J)) (key : Key)
    (v : Value J) :
    LastWritten Wrote ((clients J P B).trace MemoryStore.new calls) key v ↔
      ((cloud J P B).finalState Cloud.new (calls.map Call.command)).objects key =
        some v := by
  rw [filled_objects.stored_iff (fun _ => rfl), Reactive.comap_trace]
  refine lastWritten_iff_of_forall₂ ?_ key v
  rw [List.forall₂_map_right_iff]
  refine ((clients_simulates hkeeps).trace .new calls).imp ?_
  rintro ⟨call, outcome⟩ ⟨call', answer⟩ ⟨hsame, htells⟩ key v
  obtain rfl : call = call' := hsame
  exact wrote_iff_stored htells

/--
Every read after the calls gives the value last written under its key, as it is
read back.  Where nothing was written it gives what a client knows without
asking, the root operation or the root view, or else reports that the object is
not found; likewise in a repository that nobody created.
-/
structure ReadsByHistory (J : JjLib) (P : Platform) (B : JjBackend)
    (calls : List (Call J)) : Prop where
  builtIn : ∀ call key v, call.command = .read key → builtIn J B key = some v →
    Tells (clients J P B ((clients J P B).finalState MemoryStore.new calls) call).1
      (.ok (.value v))
  written : ∀ call key v, call.command = .read key → Client.builtIn J B key = none →
    LastWritten Wrote ((clients J P B).trace MemoryStore.new calls) key v →
    Tells (clients J P B ((clients J P B).finalState MemoryStore.new calls) call).1
      (.ok (.value v.readBack))
  unwritten : ∀ call key, call.command = .read key → Client.builtIn J B key = none →
    (∀ v, ¬ Written Wrote ((clients J P B).trace MemoryStore.new calls) key v) →
    .create key.repoId ∈ calls.map Call.command →
    Tells (clients J P B ((clients J P B).finalState MemoryStore.new calls) call).1
      ((rootValue J key).elim (.error .notFound) (.ok ∘ .value))
  unknown : ∀ call key, call.command = .read key → Client.builtIn J B key = none →
    .create key.repoId ∉ calls.map Call.command →
    Tells (clients J P B ((clients J P B).finalState MemoryStore.new calls) call).1
      (.error .notFound)

theorem tells_read (hkeeps : KeepsValues B) (calls : List (Call J)) {call : Call J}
    {key : Key} (hcommand : call.command = .read key) :
    Tells (clients J P B ((clients J P B).finalState MemoryStore.new calls) call).1
      (cloud J P B ((cloud J P B).finalState Cloud.new (calls.map Call.command))
        (.read key)).1 := by
  rw [← hcommand]
  exact (clients_matches_cloud hkeeps (represents_finalState hkeeps calls) call).1

theorem readsByHistory (hkeeps : KeepsValues B) (calls : List (Call J)) :
    ReadsByHistory J P B calls where
  builtIn call key v hcommand hbuiltIn := by
    have htells := tells_read (P := P) hkeeps calls hcommand
    rwa [cloud_read_builtIn hbuiltIn] at htells
  written call key v hcommand hbuiltIn hlast := by
    have hobject := (lastWritten_iff_object hkeeps calls key v).mp hlast
    have htells := tells_read (P := P) hkeeps calls hcommand
    rwa [cloud_read_registered hbuiltIn (housed_of_object _ hobject).registered, Cloud.readable,
      hobject] at htells
  unwritten call key hcommand hbuiltIn hunwritten hcreated := by
    have hobject : ((cloud J P B).finalState Cloud.new
        (calls.map Call.command)).objects key = none := by
      refine Option.eq_none_iff_forall_ne_some.mpr fun v hobject => hunwritten v ?_
      exact ((lastWritten_iff_object hkeeps calls key v).mpr hobject).written
    have htells := tells_read (P := P) hkeeps calls hcommand
    rwa [cloud_read_registered hbuiltIn ((registered_cloud_iff _ _).mpr hcreated),
      Cloud.readable, hobject] at htells
  unknown call key hcommand hbuiltIn hcreated := by
    have htells := tells_read (P := P) hkeeps calls hcommand
    rwa [cloud_read_unregistered hbuiltIn
      ((registered_cloud_iff _ _).not.mpr hcreated)] at htells

theorem readsByHistory_early :
    ReadsByHistory .reference .reference .reference earlyCommit :=
  readsByHistory reference_keepsValues earlyCommit

end CommitCloud.Client

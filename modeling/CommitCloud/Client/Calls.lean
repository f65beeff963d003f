import CommitCloud.Client.Backend
import CommitCloud.Client.OpHeadsStore
import CommitCloud.Client.OpStore
import CommitCloud.Server.ContentAddress

/-!
# Clients at work

The methods of the client's three stores that call the server, as one machine
on the server's store.  Any number of clients may act, each call over its own
transport and for any repository.  A call sends at most one request, so a run
of clients is a run of the server.
-/

namespace CommitCloud.Client

open Foundation CommitCloud.Server Backend OpStore OpHeadsStore

variable (J : JjLib)

inductive Call where
  | init (uuid : RepoId)
  | readFile (D : Delivery) (repoId : RepoId) (id : FileId)
  | writeFile (repoId : RepoId) (contents : Bytes)
  | readTree (repoId : RepoId) (path : String) (id : TreeId)
  | writeTree (repoId : RepoId) (path : String) (tree : Jj.Tree)
  | readCommit (repoId : RepoId) (id : CommitId)
  | writeCommit (repoId : RepoId) (commit : Jj.Commit)
      (signWith : Option SigningFn)
  | readView (T : Transport) (repoId : RepoId) (id : ViewId)
  | writeView (T : Transport) (repoId : RepoId) (view : Jj.View J.RefTarget)
  | readOperation (T : Transport) (repoId : RepoId) (id : OpId)
  | writeOperation (T : Transport) (repoId : RepoId) (op : Jj.Operation)
  | getOpHeads (repoId : RepoId)
  | updateOpHeads (repoId : RepoId) (oldIds : List OpId) (newId : OpId)

inductive Outcome where
  | init (result : BackendResult RepoId)
  | readFile (result : BackendResult Bytes)
  | writeFile (result : BackendResult FileId)
  | readTree (result : BackendResult Jj.Tree)
  | writeTree (result : BackendResult TreeId)
  | readCommit (result : BackendResult Jj.Commit)
  | writeCommit (result : BackendResult (CommitId × Jj.Commit))
  | readView (result : Except ClientError (Jj.View J.RefTarget))
  | writeView (result : Except ClientError ViewId)
  | readOperation (result : Except ClientError Jj.Operation)
  | writeOperation (result : Except ClientError OpId)
  | getOpHeads (result : Except ClientError (List OpId))
  | updateOpHeads (result : Except ClientError Unit)

variable (P : Platform) (B : JjBackend)

def clients : Reactive MemoryStore (Call J) (Outcome J) := fun s call =>
  match call with
  | .init uuid => (Backend.init uuid s).map .init id
  | .readFile D repoId fileId =>
      (Backend.readFile D repoId fileId s).map .readFile id
  | .writeFile repoId contents =>
      (Backend.writeFile P repoId contents s).map .writeFile id
  | .readTree repoId path treeId =>
      (Backend.readTree B repoId path treeId s).map .readTree id
  | .writeTree repoId path tree =>
      (Backend.writeTree P repoId path tree s).map .writeTree id
  | .readCommit repoId commitId =>
      (Backend.readCommit B repoId commitId s).map .readCommit id
  | .writeCommit repoId commit signWith =>
      (Backend.writeCommit P repoId commit signWith s).map .writeCommit id
  | .readView T repoId viewId =>
      (OpStore.readView J T repoId viewId s).map .readView id
  | .writeView T repoId view =>
      (OpStore.writeView J P T repoId view s).map .writeView id
  | .readOperation T repoId opId =>
      (OpStore.readOperation T repoId opId s).map .readOperation id
  | .writeOperation T repoId op =>
      (OpStore.writeOperation P T repoId op s).map .writeOperation id
  | .getOpHeads repoId => (OpHeadsStore.getOpHeads repoId s).map .getOpHeads id
  | .updateOpHeads repoId oldIds newId =>
      (OpHeadsStore.updateOpHeads repoId oldIds newId s).map .updateOpHeads id

variable {J}

/-- What a call sends: the server knows the empty tree without being asked. -/
def Call.request : Call J → Option Request
  | .init uuid => some (.registerRepository {} uuid)
  | .readFile _ repoId id => some (.readFile ⟨repoId, id⟩)
  | .writeFile repoId contents => some (.writeFile ⟨repoId, contents⟩)
  | .readTree repoId path id =>
      if id = emptyTreeIdBytes then none else some (.readTree ⟨repoId, id, path⟩)
  | .writeTree repoId path tree =>
      if tree.entries.isEmpty then none
      else (tree.entries.mapM treeEntryToProto).toOption.map fun entries =>
        .writeTree ⟨repoId, path, entries⟩
  | .readCommit repoId id =>
      if id = rootCommitIdBytes then none else some (.readCommit ⟨repoId, id⟩)
  | .writeCommit repoId commit _ =>
      some (.writeCommit ⟨repoId, some (commitToProto commit)⟩)
  | .readView _ repoId id => some (.readView ⟨repoId, id⟩)
  | .writeView T repoId view =>
      some (.writeView ⟨repoId, some (T.view (viewToProto J view))⟩)
  | .readOperation _ repoId id => some (.readOperation ⟨repoId, id⟩)
  | .writeOperation T repoId op =>
      some (.writeOperation ⟨repoId, some (T.operation (operationToProto op))⟩)
  | .getOpHeads repoId => some (.getOpHeads ⟨repoId⟩)
  | .updateOpHeads repoId oldIds newId =>
      some (.updateOpHeads ⟨repoId, oldIds, newId⟩)

variable {P B}

theorem clients_state (s : MemoryStore) (call : Call J) :
    (clients J P B s call).2 =
      call.request.elim s fun req => (server P s req).2 := by
  cases call with
  | init uuid => rfl
  -- three methods may answer without a request
  | readTree repoId path id =>
      simp only [clients, Call.request, Prod.map_snd, id_eq, Backend.readTree]
      split
      · rfl
      · exact remoteCall_state.trans (Handler.call_map_state ..).symm
  | writeTree repoId path tree =>
      simp only [clients, Call.request, Prod.map_snd, id_eq, Backend.writeTree]
      split
      · rfl
      · cases tree.entries.mapM treeEntryToProto with
        | error failure => rfl
        | ok entries =>
            exact remoteCall_state.trans (Handler.call_map_state ..).symm
  | readCommit repoId id =>
      simp only [clients, Call.request, Prod.map_snd, id_eq, Backend.readCommit]
      split
      · rfl
      · exact remoteCall_state.trans (Handler.call_map_state ..).symm
  | _ => exact remoteCall_state.trans (Handler.call_map_state ..).symm

/-- The store after a run of clients is that after the requests they sent. -/
theorem clients_finalState (s : MemoryStore) (calls : List (Call J)) :
    (clients J P B).finalState s calls =
      (server P).finalState s (calls.filterMap Call.request) :=
  (clients J P B).finalState_eq_of_forward Call.request clients_state s calls

/-! ## Outcomes go by what the server answers -/

section Answers

variable {s s' : MemoryStore}

theorem remoteCall_answer {ε α β : Type} {handler : Handler α} {onFailure : Failure → ε}
    {decode : α → Except ε β} (h : (handler.call s).1 = (handler.call s').1) :
    (remoteCall handler onFailure decode s).1 =
      (remoteCall handler onFailure decode s').1 := by
  unfold remoteCall
  cases hs : handler.call s with
  | mk result t =>
      cases hs' : handler.call s' with
      | mk result' t' =>
          obtain rfl : result = result' := by rwa [hs, hs'] at h
          cases result <;> rfl

theorem answer_of_map {α β : Type} {f : α → β} (hf : Function.Injective f)
    {handler : Handler α} (h : ((f <$> handler).call s).1 = ((f <$> handler).call s').1) :
    (handler.call s).1 = (handler.call s').1 := by
  rw [Handler.call_map, Handler.call_map] at h
  cases hs : handler.call s with
  | mk result t =>
      cases hs' : handler.call s' with
      | mk result' t' =>
          rw [hs, hs'] at h
          cases result <;> cases result' <;> simp_all [hf.eq_iff]

theorem outcome_congr {ε α β γ : Type} {handler : Handler α} {onFailure : Failure → ε}
    {decode : α → Except ε β} (outcome : Except ε β → γ) {respond : α → Response}
    (hrespond : Function.Injective respond)
    (h : ((respond <$> handler).call s).1 = ((respond <$> handler).call s').1) :
    outcome (remoteCall handler onFailure decode s).1 =
      outcome (remoteCall handler onFailure decode s').1 :=
  congrArg outcome (remoteCall_answer (answer_of_map hrespond h))

theorem clients_answer {call : Call J}
    (h : ∀ req, call.request = some req → (server P s req).1 = (server P s' req).1) :
    (clients J P B s call).1 = (clients J P B s' call).1 := by
  cases call with
  | init uuid => rfl
  -- three methods may answer without a request
  | readTree repoId path id =>
      simp only [clients, Prod.map_fst, Backend.readTree]
      split
      · rfl
      next hid => exact outcome_congr _ (fun _ _ => Response.readTree.inj) (h _ (if_neg hid))
  | writeTree repoId path tree =>
      simp only [clients, Prod.map_fst, Backend.writeTree]
      split
      · rfl
      next hempty =>
        cases hentries : tree.entries.mapM Backend.treeEntryToProto with
        | error failure => rfl
        | ok entries =>
            have hreq : (Call.writeTree (J := J) repoId path tree).request =
                some (.writeTree ⟨repoId, path, entries⟩) := by
              simp [Call.request, hempty, hentries, Except.toOption]
            exact outcome_congr _ (fun _ _ => Response.writeTree.inj) (h _ hreq)
  | readCommit repoId id =>
      simp only [clients, Prod.map_fst, Backend.readCommit]
      split
      · rfl
      next hid => exact outcome_congr _ (fun _ _ => Response.readCommit.inj) (h _ (if_neg hid))
  | readFile D repoId id =>
      exact outcome_congr _ (fun _ _ => Response.readFile.inj) (h _ rfl)
  | writeFile repoId contents =>
      exact outcome_congr _ (fun _ _ => Response.writeFile.inj) (h _ rfl)
  | writeCommit repoId commit signWith =>
      exact outcome_congr _ (fun _ _ => Response.writeCommit.inj) (h _ rfl)
  | readView T repoId id =>
      exact outcome_congr _ (fun _ _ => Response.readView.inj) (h _ rfl)
  | writeView T repoId view =>
      exact outcome_congr _ (fun _ _ => Response.writeView.inj) (h _ rfl)
  | readOperation T repoId id =>
      exact outcome_congr _ (fun _ _ => Response.readOperation.inj) (h _ rfl)
  | writeOperation T repoId op =>
      exact outcome_congr _ (fun _ _ => Response.writeOperation.inj) (h _ rfl)
  | getOpHeads repoId =>
      exact outcome_congr _ (fun _ _ => Response.getOpHeads.inj) (h _ rfl)
  | updateOpHeads repoId oldIds newId =>
      exact outcome_congr _ (fun _ _ => Response.updateOpHeads.inj) (h _ rfl)

end Answers

/-! ## What clients store -/

section Stored

variable {ν : Type} {stored : MemoryStore → RepoId × Bytes → Option ν}
  {wrote : Request → Answer → RepoId × Bytes → ν → Prop} {calls : List (Call J)}

/-- What is stored was written by a request that a client sent. -/
theorem sent_of_stored (hfilled : Filled (server P) stored wrote)
    (hempty : ∀ key, stored MemoryStore.new key = none) (key : RepoId × Bytes)
    {v : ν} (hstored : stored ((clients J P B).finalState MemoryStore.new calls) key =
      some v) :
    ∃ (call : Call J) (req : Request) (s : MemoryStore), call.request = some req ∧
      (call, (clients J P B s call).1) ∈ (clients J P B).trace MemoryStore.new calls ∧
      wrote req (server P s req).1 key v := by
  rw [clients_finalState] at hstored
  obtain ⟨⟨req, answer⟩, hmem, hwrote⟩ := hfilled.provenance hempty key hstored
  obtain ⟨s, call, hcall, hmade, rfl⟩ :=
    (clients J P B).exists_mem_trace_of_forward clients_state hmem
  exact ⟨call, req, s, hcall, hmade, hwrote⟩

/-- What a client's call wrote is stored from then on, in a registered repository. -/
theorem stored_of_sent (hfilled : Filled (server P) stored wrote)
    (hreg : ∀ {s req answer s' key v}, Step P s req answer s' →
      wrote req answer key v → s.isRepoRegistered key.1)
    (key : RepoId × Bytes) (v : ν) {call : Call J} {outcome : Outcome J} {req : Request}
    (hmade : (call, outcome) ∈ (clients J P B).trace MemoryStore.new calls)
    (hcall : call.request = some req)
    (hwrote : ∀ s, (clients J P B s call).1 = outcome →
      wrote req (server P s req).1 key v) :
    ((clients J P B).finalState MemoryStore.new calls).isRepoRegistered key.1 ∧
      ∃ v', stored ((clients J P B).finalState MemoryStore.new calls) key =
        some v' := by
  obtain ⟨s, houtcome, hmem⟩ := (clients J P B).mem_trace_of_forward clients_state
    hmade hcall
  have hwritten : Written wrote ((server P).trace MemoryStore.new
      (calls.filterMap Call.request)) key v := ⟨_, hmem, hwrote s houtcome⟩
  rw [clients_finalState]
  exact ⟨registered_of_written hreg hwritten, hfilled.present hwritten⟩

end Stored

end CommitCloud.Client

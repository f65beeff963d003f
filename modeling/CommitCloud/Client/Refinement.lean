import CommitCloud.Client.Calls
import CommitCloud.Client.Cloud
import CommitCloud.Client.Files
import CommitCloud.Foundation.Simulation
import CommitCloud.Server.OpHeads

/-!
# Clients and server refine the cloud

The store of the server represents the cloud: under every key it has a message
that a client made of the value there.  Every call of a client answers what the
cloud answers and leaves the store representing what the cloud has become.
-/

namespace CommitCloud.Client

open Foundation CommitCloud.Server Backend OpStore OpHeadsStore

variable {J : JjLib} {P : Platform} {B : JjBackend}

/-! ## Representation -/

inductive Message where
  | file (content : Bytes)
  | tree (entries : List Proto.Backend.TreeEntry)
  | commit (commit : Proto.Backend.Commit)
  | view (view : Proto.OpStore.View)
  | operation (op : Proto.OpStore.Operation)

def Message.kind : Message → Kind
  | .file _ => .file
  | .tree _ => .tree
  | .commit _ => .commit
  | .view _ => .view
  | .operation _ => .operation

/-- A client made the message, stored under the id, of the value. -/
inductive Encodes (id : Bytes) : Message → Value J → Prop where
  | file (contents : Bytes) : Encodes id (.file contents) (.file contents)
  | tree {value : Jj.Tree} {entries : List Proto.Backend.TreeEntry}
      (h : value.entries.mapM treeEntryToProto = .ok entries) :
      Encodes id (.tree entries) (.tree value)
  | commit (value : Jj.Commit) :
      Encodes id (.commit (storedCommit value id)) (.commit value)
  | view {value : Jj.View J.RefTarget} {message : Proto.OpStore.View}
      (h : message.Equiv (viewToProto J value)) :
      Encodes id (.view message) (.view value)
  | operation {value : Jj.Operation} {message : Proto.OpStore.Operation}
      (h : message.Equiv (operationToProto value)) :
      Encodes id (.operation message) (.operation value)

def message (s : MemoryStore) : Table Key Message := fun key =>
  match key.kind with
  | .file => (s.getFile key.repoId key.id).map .file
  | .tree => (s.getTree key.repoId key.id).map .tree
  | .commit => (s.getCommit key.repoId key.id).map .commit
  | .view => (s.getView key.repoId key.id).map .view
  | .operation => (s.getOperation key.repoId key.id).map .operation

def putMessage (s : MemoryStore) (repoId : RepoId) (id : Bytes) : Message → MemoryStore
  | .file content => s.putFile repoId id content
  | .tree entries => s.putTree repoId id entries
  | .commit commit => s.putCommit repoId id commit
  | .view view => s.putView repoId id view
  | .operation op => s.putOperation repoId id op

theorem message_putMessage (s : MemoryStore) (repoId : RepoId) (id : Bytes)
    (m : Message) :
    message (putMessage s repoId id m) = Table.insert (message s) ⟨m.kind, repoId, id⟩ m := by
  funext key
  obtain ⟨kind, repoId', id'⟩ := key
  by_cases hkey : (⟨kind, repoId', id'⟩ : Key) = ⟨m.kind, repoId, id⟩
  · obtain ⟨rfl, rfl, rfl⟩ := Key.mk.inj hkey
    rw [Table.insert_self]
    cases m <;> exact congrArg (Option.map _) (Nested.lookup_put_self ..)
  · rw [Table.insert_of_ne hkey]
    by_cases hkind : kind = m.kind
    · subst hkind
      have hother : ¬ (repoId' = repoId ∧ id' = id) := by
        rintro ⟨rfl, rfl⟩
        exact hkey rfl
      cases m <;>
        exact congrArg (Option.map _) ((Nested.lookup_put ..).trans (if_neg hother))
    · cases m <;> cases kind <;> first | rfl | exact absurd rfl hkind

structure Represents (s : MemoryStore) (c : Cloud J) : Prop where
  registered : ∀ repoId, s.isRepoRegistered repoId = c.registered repoId
  objects : ∀ key, Option.Rel (Encodes key.id) (message s key) (c.objects key)
  heads : ∀ repoId, s.heads repoId = c.heads repoId

variable {s : MemoryStore} {c : Cloud J} {repoId : RepoId} {id : Bytes} {m : Message}
  {v : Value J} {key : Key}

theorem Encodes.kind (h : Encodes id m v) : m.kind = v.kind := by
  cases h <;> rfl

namespace Represents

theorem new : Represents MemoryStore.new (Cloud.new : Cloud J) where
  registered _ := rfl
  objects := by
    rintro ⟨kind, repoId, id⟩
    cases kind <;> exact .none
  heads _ := rfl

variable (h : Represents s c)

include h

theorem object_none (hnone : message s key = none) : c.objects key = none := by
  have hrel := h.objects key
  rw [hnone] at hrel
  cases hobject : c.objects key with
  | none => rfl
  | some value =>
      rw [hobject] at hrel
      cases hrel

theorem object_some (hsome : message s key = some m) :
    ∃ v, c.objects key = some v ∧ Encodes key.id m v := by
  have hrel := h.objects key
  rw [hsome] at hrel
  cases hobject : c.objects key with
  | none =>
      rw [hobject] at hrel
      cases hrel
  | some value =>
      rw [hobject] at hrel
      obtain ⟨hencodes⟩ := hrel
      exact ⟨value, rfl, hencodes⟩

theorem register (repoId : RepoId) :
    Represents (s.registerRepo repoId) (c.register repoId) where
  registered repoId' := by
    by_cases hrepo : repoId' = repoId
    · simp [MemoryStore.isRepoRegistered, MemoryStore.registerRepo, hrepo]
    · simpa [MemoryStore.isRepoRegistered, MemoryStore.registerRepo, hrepo] using
        h.registered repoId'
  objects := h.objects
  heads := h.heads

theorem put (hencodes : Encodes id m v) :
    Represents (putMessage s repoId id m) (c.put ⟨v.kind, repoId, id⟩ v) where
  registered repoId' := by
    cases m <;> exact h.registered repoId'
  objects := by
    rw [message_putMessage, hencodes.kind]
    exact Table.rel_insert (r := fun key : Key => Encodes key.id) h.objects hencodes
  heads repoId' := by
    cases m <;> exact h.heads repoId'

theorem publish (oldIds : List OpId) (newId : OpId) :
    Represents (s.updateOpHeads repoId oldIds newId).2 (c.publish repoId oldIds newId) where
  registered := h.registered
  objects := h.objects
  heads repoId' := by
    by_cases hrepo : repoId' = repoId
    · subst hrepo
      rw [MemoryStore.heads_updateOpHeads, Cloud.heads_publish_self, h.heads]
    · rw [MemoryStore.heads_updateOpHeads_of_ne hrepo, Cloud.heads_publish_of_ne c hrepo,
        h.heads]

end Represents

/-! ## One call -/

/-- The same is told, and the store goes on representing the cloud. -/
def Matches (called : Outcome J × MemoryStore) (asked : CloudAnswer J × Cloud J) : Prop :=
  Tells called.1 asked.1 ∧ Represents called.2 asked.2

theorem Tells.of_answer {outcome : Outcome J} {answer : CloudAnswer J}
    (h : outcome.answer = some answer) : Tells outcome answer :=
  ⟨answer, h, .same answer⟩

theorem Tells.of_equiv {outcome : Outcome J} {told : Value J}
    (h : outcome.answer = some (.ok (.value told))) (hequiv : told.Equiv v) :
    Tells outcome (.ok (.value v)) :=
  ⟨_, h, .value hequiv⟩

section Calls

variable {call : Call J}

theorem Call.request_of_read (hcommand : call.command = .read key) {req : Request}
    (hreq : call.request = some req) : ¬ req.Writes := by
  cases call with
  | readFile | readView | readOperation =>
      obtain rfl := Option.some.inj hreq
      exact not_false
  | readTree | readCommit =>
      simp only [Call.request] at hreq
      split at hreq
      · cases hreq
      · obtain rfl := Option.some.inj hreq
        exact not_false
  | _ => cases hcommand

theorem clients_state_of_read (hcommand : call.command = .read key) :
    (clients J P B s call).2 = s := by
  rw [clients_state]
  cases hreq : call.request with
  | none => rfl
  | some req =>
      exact (server_step P s req).state_of_not_writes (call.request_of_read hcommand hreq)

/-- A read is told apart by what the server has for it. -/
theorem matches_read (call : Call J) (h : Represents s c)
    (hcommand : call.command = .read key) (hbuiltIn : builtIn J B key = none)
    (hunregistered : s.isRepoRegistered key.repoId = false →
      Tells (clients J P B s call).1 (.error .notFound))
    (hmissing : s.isRepoRegistered key.repoId = true → message s key = none →
      Tells (clients J P B s call).1
        ((rootValue J key).elim (.error .notFound) (.ok ∘ .value)))
    (hstored : ∀ m, s.isRepoRegistered key.repoId = true → message s key = some m →
      ∀ value, Encodes key.id m value →
        Tells (clients J P B s call).1 (.ok (.value value.readBack))) :
    Matches (clients J P B s call) (cloud J P B c call.command) := by
  have hstate : (clients J P B s call).2 = s := clients_state_of_read hcommand
  have hcloud : (cloud J P B c (.read key)).2 = c := by
    simp only [cloud, hbuiltIn]
    split
    · split <;> rfl
    · rfl
  rw [hcommand]
  refine ⟨?_, by rwa [hstate, hcloud]⟩
  simp only [cloud, hbuiltIn, ← h.registered]
  cases hreg : s.isRepoRegistered key.repoId with
  | false => exact hunregistered hreg
  | true =>
      cases hmessage : message s key with
      | none =>
          have htold := hmissing hreg hmessage
          rw [if_pos rfl, Cloud.readable, h.object_none hmessage]
          cases hroot : rootValue J key with
          | none =>
              rw [hroot] at htold
              exact htold
          | some value =>
              rw [hroot] at htold
              exact htold
      | some m =>
          obtain ⟨value, hobject, hencodes⟩ := h.object_some hmessage
          rw [if_pos rfl, Cloud.readable, hobject]
          exact hstored m hreg hmessage value hencodes

/-- A write that is sent is told apart by the id of what it writes. -/
theorem matches_write (call : Call J) (h : Represents s c)
    (hcommand : call.command = .write repoId v) (hempty : v.isEmptyTree = false)
    (hsupported : v.supported = true)
    (hunregistered : s.isRepoRegistered repoId = false →
      (clients J P B s call).1.answer = some (.error .notFound) ∧
        (clients J P B s call).2 = s)
    (hpanics : s.isRepoRegistered repoId = true → v.id? P = none →
      (clients J P B s call).1.answer = some (.error .serverPanicked) ∧
        (clients J P B s call).2 = s)
    (hwritten : ∀ id, s.isRepoRegistered repoId = true → v.id? P = some id →
      (clients J P B s call).1.answer = some (.ok (.written id)) ∧
        ∃ m, Encodes id m v ∧ (clients J P B s call).2 = putMessage s repoId id m) :
    Matches (clients J P B s call) (cloud J P B c call.command) := by
  rw [hcommand]
  simp only [cloud, hempty, hsupported, ← h.registered]
  cases hreg : s.isRepoRegistered repoId with
  | false =>
      obtain ⟨hanswer, hstate⟩ := hunregistered hreg
      refine ⟨.of_answer hanswer, ?_⟩
      rw [hstate]
      exact h
  | true =>
      cases hid : v.id? P with
      | none =>
          obtain ⟨hanswer, hstate⟩ := hpanics hreg hid
          refine ⟨.of_answer hanswer, ?_⟩
          rw [hstate]
          exact h
      | some id =>
          obtain ⟨hanswer, m, hencodes, hstate⟩ := hwritten id hreg hid
          refine ⟨.of_answer hanswer, ?_⟩
          rw [hstate]
          exact h.put hencodes

theorem matches_readFile (h : Represents s c) (D : Delivery) :
    Matches (clients J P B s (.readFile D repoId id))
      (cloud J P B c (.read ⟨.file, repoId, id⟩)) := by
  refine matches_read (.readFile D repoId id) h rfl rfl ?_ ?_ ?_
  · intro hreg
    simp only [clients, Backend.readFile, rpc, remoteCall, BackendService.call_readFile, hreg]
    exact .of_answer rfl
  · intro hreg hnone
    have hget : s.getFile repoId id = none := Option.map_eq_none_iff.mp hnone
    simp only [clients, Backend.readFile, rpc, remoteCall, BackendService.call_readFile, hreg,
      hget]
    exact .of_answer rfl
  · intro m hreg hsome value hencodes
    obtain ⟨content, hget, rfl⟩ := Option.map_eq_some_iff.mp hsome
    cases hencodes
    simp only [clients, readFile_eq hreg hget]
    exact .of_answer rfl

theorem matches_readTree (hnames : B.AcceptsNames) (h : Represents s c) (path : String) :
    Matches (clients J P B s (.readTree repoId path id))
      (cloud J P B c (.read ⟨.tree, repoId, id⟩)) := by
  by_cases hempty : id = emptyTreeIdBytes
  · simp only [clients, cloud, builtIn, hempty, readTree_emptyTreeId, if_true]
    exact ⟨.of_answer rfl, h⟩
  · refine matches_read (.readTree repoId path id) h rfl (if_neg hempty) ?_ ?_ ?_
    · intro hreg
      simp only [clients, Backend.readTree, if_neg hempty, rpc, remoteCall,
        BackendService.call_readTree, hreg]
      exact .of_answer rfl
    · intro hreg hnone
      have hget : s.getTree repoId id = none := Option.map_eq_none_iff.mp hnone
      simp only [clients, Backend.readTree, if_neg hempty, rpc, remoteCall,
        BackendService.call_readTree, hreg, hget]
      exact .of_answer rfl
    · intro m hreg hsome value hencodes
      obtain ⟨entries, hget, rfl⟩ := Option.map_eq_some_iff.mp hsome
      cases hencodes with
      | tree hto =>
          simp only [clients, Backend.readTree, if_neg hempty, rpc, remoteCall,
            BackendService.call_readTree, hreg, hget, if_true,
            treeFromProto_toProto hnames hto]
          exact .of_answer rfl

theorem matches_readCommit (hterms : B.KeepsTerms) (hlabels : B.NormalizesLabels)
    (h : Represents s c) :
    Matches (clients J P B s (.readCommit repoId id))
      (cloud J P B c (.read ⟨.commit, repoId, id⟩)) := by
  by_cases hroot : id = rootCommitIdBytes
  · simp only [clients, cloud, builtIn, hroot, Backend.readCommit, if_true]
    exact ⟨.of_answer rfl, h⟩
  · refine matches_read (.readCommit repoId id) h rfl (if_neg hroot) ?_ ?_ ?_
    · intro hreg
      simp only [clients, Backend.readCommit, if_neg hroot, rpc, remoteCall,
        BackendService.call_readCommit, hreg]
      exact .of_answer rfl
    · intro hreg hnone
      have hget : s.getCommit repoId id = none := Option.map_eq_none_iff.mp hnone
      simp only [clients, Backend.readCommit, if_neg hroot, rpc, remoteCall,
        BackendService.call_readCommit, hreg, hget]
      exact .of_answer rfl
    · intro m hreg hsome value hencodes
      obtain ⟨stored, hget, rfl⟩ := Option.map_eq_some_iff.mp hsome
      cases hencodes with
      | commit value =>
          simp only [clients, readCommit_eq hreg hroot hget,
            commitFromProto_storedCommit hterms hlabels]
          exact .of_answer rfl

theorem matches_readView (h : Represents s c) (T : Transport) :
    Matches (clients J P B s (.readView T repoId id))
      (cloud J P B c (.read ⟨.view, repoId, id⟩)) := by
  refine matches_read (.readView T repoId id) h rfl rfl ?_ ?_ ?_
  · intro hreg
    simp only [clients, OpStore.readView, Session.rpc, remoteCall, OpStoreService.call_readView, hreg]
    exact .of_answer rfl
  · intro hreg hnone
    have hget : s.getView repoId id = none := Option.map_eq_none_iff.mp hnone
    simp only [clients, OpStore.readView, Session.rpc, remoteCall, OpStoreService.call_readView, hreg,
      hget, rootValue]
    by_cases hroot : id = rootViewIdBytes
    · simp only [hroot, if_true]
      exact .of_equiv rfl (.view (viewFromProto_delivered (T.view_equiv _)))
    · simp only [hroot, if_false]
      exact .of_answer rfl
  · intro m hreg hsome value hencodes
    obtain ⟨stored, hget, rfl⟩ := Option.map_eq_some_iff.mp hsome
    cases hencodes with
    | view hmessage =>
        simp only [clients, readView_eq hreg hget]
        exact .of_equiv rfl
          (.view (viewFromProto_delivered ((T.view_equiv stored).trans hmessage)))

theorem matches_readOperation (h : Represents s c) (T : Transport) :
    Matches (clients J P B s (.readOperation T repoId id))
      (cloud J P B c (.read ⟨.operation, repoId, id⟩)) := by
  refine matches_read (.readOperation T repoId id) h rfl rfl ?_ ?_ ?_
  · intro hreg
    simp only [clients, OpStore.readOperation, Session.rpc, remoteCall,
      OpStoreService.call_readOperation, hreg]
    exact .of_answer rfl
  · intro hreg hnone
    have hget : s.getOperation repoId id = none := Option.map_eq_none_iff.mp hnone
    simp only [clients, OpStore.readOperation, Session.rpc, remoteCall,
      OpStoreService.call_readOperation, hreg, hget, rootValue]
    by_cases hroot : id = rootOperationIdBytes
    · simp only [hroot, if_true]
      exact .of_equiv rfl (.operation (operationFromProto_equiv (T.operation_equiv _)))
    · simp only [hroot, if_false]
      exact .of_answer rfl
  · intro m hreg hsome value hencodes
    obtain ⟨stored, hget, rfl⟩ := Option.map_eq_some_iff.mp hsome
    cases hencodes with
    | operation hmessage =>
        simp only [clients, readOperation_eq hreg hget]
        refine .of_equiv rfl (.operation ?_)
        exact (operationFromProto_equiv (T.operation_equiv stored)).trans
          ((operationFromProto_equiv hmessage).trans (operationFromProto_toProto _))

theorem matches_writeFile (h : Represents s c) (contents : Bytes) :
    Matches (clients J P B s (.writeFile repoId contents))
      (cloud J P B c (.write repoId (.file contents))) := by
  refine matches_write (.writeFile repoId contents) h rfl rfl rfl ?_ ?_ ?_
  · intro hreg
    simp only [clients, Backend.writeFile, rpc, remoteCall, BackendService.call_writeFile,
      hreg]
    exact ⟨rfl, rfl⟩
  · intro _ hid
    cases hid
  · intro id hreg hid
    obtain rfl := Option.some.inj hid
    simp only [clients, Backend.writeFile, rpc, remoteCall, BackendService.call_writeFile,
      hreg]
    exact ⟨rfl, .file contents, .file contents, rfl⟩

theorem supported_iff {tree : Jj.Tree} :
    (Value.tree tree : Value J).supported = true ↔
      ∃ entries, tree.entries.mapM treeEntryToProto = .ok entries := by
  rw [exists_mapM_eq_ok_iff, Value.supported, List.all_eq_true]
  refine forall₂_congr fun entry _ => ?_
  obtain ⟨component, value⟩ := entry
  cases value with
  | gitSubmodule id => exact iff_of_false nofun nofun
  | _ => exact iff_of_true rfl ⟨_, rfl⟩

theorem treeEntryToProto_error {entry : Jj.RepoPathComponent × Jj.TreeValue}
    {failure : BackendError} (h : treeEntryToProto entry = .error failure) :
    ∃ message, failure = .unsupported message := by
  obtain ⟨component, value⟩ := entry
  cases value with
  | gitSubmodule id =>
      cases h
      exact ⟨_, rfl⟩
  | _ => cases h

theorem writeTree_sent {tree : Jj.Tree} {path : String}
    {entries : List Proto.Backend.TreeEntry} (hempty : tree.entries.isEmpty = false)
    (hto : tree.entries.mapM treeEntryToProto = .ok entries) :
    Backend.writeTree P repoId path tree =
      rpc (BackendService.writeTree P ⟨repoId, path, entries⟩) writeFailure
        fun response => .ok response.treeId := by
  simp only [Backend.writeTree, hempty, hto, Bool.false_eq_true, if_false]

theorem writeTree_unsupported {tree : Jj.Tree} {path : String} {failure : BackendError}
    (hempty : tree.entries.isEmpty = false)
    (hto : tree.entries.mapM treeEntryToProto = .error failure) :
    Backend.writeTree P repoId path tree s = (fail failure, s) := by
  simp only [Backend.writeTree, hempty, hto, Bool.false_eq_true, if_false]

theorem matches_writeTree (h : Represents s c) (path : String) (tree : Jj.Tree) :
    Matches (clients J P B s (.writeTree repoId path tree))
      (cloud J P B c (.write repoId (.tree tree))) := by
  cases hempty : tree.entries.isEmpty with
  | true =>
      have hknown : (Value.tree tree : Value J).isEmptyTree = true := hempty
      simp only [clients, cloud, hknown, Backend.writeTree, hempty, if_true]
      exact ⟨.of_answer rfl, h⟩
  | false =>
      have hsent : (Value.tree tree : Value J).isEmptyTree = false := hempty
      cases hto : tree.entries.mapM treeEntryToProto with
      | error failure =>
          have hunsupported : ¬ (Value.tree tree : Value J).supported := by
            rintro hsupported
            obtain ⟨entries, hok⟩ := supported_iff.mp hsupported
            cases hto.symm.trans hok
          obtain ⟨entry, -, hfailed⟩ := exists_eq_error_of_mapM hto
          obtain ⟨message, rfl⟩ := treeEntryToProto_error hfailed
          simp only [clients, cloud, hsent, hunsupported, writeTree_unsupported hempty hto]
          exact ⟨.of_answer rfl, h⟩
      | ok entries =>
          have hid : (Value.tree tree : Value J).id? P = computeGitTreeHash P entries := by
            rw [Value.id?, hto]
            rfl
          refine matches_write (.writeTree repoId path tree) h rfl hsent
            (supported_iff.mpr ⟨entries, hto⟩) ?_ ?_ ?_
          · intro hreg
            simp only [clients, writeTree_sent hempty hto, rpc, remoteCall,
              BackendService.call_writeTree, hreg]
            exact ⟨rfl, rfl⟩
          · intro hreg hhash
            rw [hid] at hhash
            simp only [clients, writeTree_sent hempty hto, rpc, remoteCall,
              BackendService.call_writeTree, hreg, hhash]
            exact ⟨rfl, rfl⟩
          · intro id hreg hhash
            rw [hid] at hhash
            simp only [clients, writeTree_sent hempty hto, rpc, remoteCall,
              BackendService.call_writeTree, hreg, hhash]
            exact ⟨rfl, .tree entries, .tree hto, rfl⟩

theorem matches_writeCommit (h : Represents s c) (commit : Jj.Commit)
    (signWith : Option SigningFn) :
    Matches (clients J P B s (.writeCommit repoId commit signWith))
      (cloud J P B c (.write repoId (.commit commit))) := by
  have hcommitId : BackendService.commitIdOf P (commitToProto commit) =
      computeGitCommitHash P (commitToProto commit) := rfl
  refine matches_write (.writeCommit repoId commit signWith) h rfl rfl rfl ?_ ?_ ?_
  · intro hreg
    simp only [clients, Backend.writeCommit, rpc, remoteCall,
      BackendService.call_writeCommit, hreg]
    exact ⟨rfl, rfl⟩
  · intro hreg hid
    simp only [Value.id?] at hid
    simp only [clients, Backend.writeCommit, rpc, remoteCall,
      BackendService.call_writeCommit, hreg, hcommitId, hid]
    exact ⟨rfl, rfl⟩
  · intro id hreg hid
    simp only [Value.id?] at hid
    simp only [clients, Backend.writeCommit, rpc, remoteCall,
      BackendService.call_writeCommit, hreg, hcommitId, hid]
    exact ⟨rfl, .commit (storedCommit commit id), .commit commit, rfl⟩

theorem matches_writeView (h : Represents s c) (T : Transport)
    (view : Jj.View J.RefTarget) :
    Matches (clients J P B s (.writeView T repoId view))
      (cloud J P B c (.write repoId (.view view))) := by
  refine matches_write (.writeView T repoId view) h rfl rfl rfl ?_ ?_ ?_
  · intro hreg
    simp only [clients, OpStore.writeView, Session.rpc, remoteCall, OpStoreService.call_writeView, hreg]
    exact ⟨rfl, rfl⟩
  · intro _ hid
    cases hid
  · intro id hreg hid
    obtain rfl := Option.some.inj hid
    simp only [clients, writeView_eq hreg, hashView_delivered]
    exact ⟨rfl, .view (T.view (viewToProto J view)), .view (T.view_equiv _), rfl⟩

theorem matches_writeOperation (h : Represents s c) (T : Transport) (op : Jj.Operation) :
    Matches (clients J P B s (.writeOperation T repoId op))
      (cloud J P B c (.write repoId (.operation op))) := by
  refine matches_write (.writeOperation T repoId op) h rfl rfl rfl ?_ ?_ ?_
  · intro hreg
    simp only [clients, OpStore.writeOperation, Session.rpc, remoteCall,
      OpStoreService.call_writeOperation, hreg]
    exact ⟨rfl, rfl⟩
  · intro _ hid
    cases hid
  · intro id hreg hid
    obtain rfl := Option.some.inj hid
    simp only [clients, writeOperation_eq hreg, hashOperation_delivered]
    exact ⟨rfl, .operation (T.operation (operationToProto op)),
      .operation (T.operation_equiv _), rfl⟩

theorem matches_getOpHeads (h : Represents s c) :
    Matches (clients J P B s (.getOpHeads repoId)) (cloud J P B c (.getHeads repoId)) := by
  simp only [clients, cloud, ← h.registered, ← h.heads]
  cases hreg : s.isRepoRegistered repoId with
  | false =>
      simp only [OpHeadsStore.getOpHeads, Session.rpc, remoteCall, OpStoreService.call_getOpHeads, hreg]
      exact ⟨.of_answer rfl, h⟩
  | true =>
      rw [getOpHeads_eq hreg]
      exact ⟨.of_answer rfl, h⟩

theorem matches_updateOpHeads (h : Represents s c) (oldIds : List OpId) (newId : OpId) :
    Matches (clients J P B s (.updateOpHeads repoId oldIds newId))
      (cloud J P B c (.publish repoId oldIds newId)) := by
  simp only [clients, cloud, ← h.registered]
  cases hreg : s.isRepoRegistered repoId with
  | false =>
      simp only [OpHeadsStore.updateOpHeads, Session.rpc, remoteCall,
        OpStoreService.call_updateOpHeads, hreg]
      exact ⟨.of_answer rfl, h⟩
  | true =>
      rw [updateOpHeads_eq hreg]
      exact ⟨.of_answer rfl, h.publish oldIds newId⟩

end Calls

/-! ## Runs -/

/-- What the client needs of jj to read what it wrote. -/
structure KeepsValues (B : JjBackend) : Prop where
  names : B.AcceptsNames
  terms : B.KeepsTerms
  labels : B.NormalizesLabels

theorem clients_matches_cloud (hkeeps : KeepsValues B) (h : Represents s c)
    (call : Call J) :
    Matches (clients J P B s call) (cloud J P B c call.command) := by
  cases call with
  | init uuid => exact ⟨.of_answer rfl, h.register uuid⟩
  | readFile D repoId id => exact matches_readFile h D
  | writeFile repoId contents => exact matches_writeFile h contents
  | readTree repoId path id => exact matches_readTree hkeeps.names h path
  | writeTree repoId path tree => exact matches_writeTree h path tree
  | readCommit repoId id => exact matches_readCommit hkeeps.terms hkeeps.labels h
  | writeCommit repoId commit signWith => exact matches_writeCommit h commit signWith
  | readView T repoId id => exact matches_readView h T
  | writeView T repoId view => exact matches_writeView h T view
  | readOperation T repoId id => exact matches_readOperation h T
  | writeOperation T repoId op => exact matches_writeOperation h T op
  | getOpHeads repoId => exact matches_getOpHeads h
  | updateOpHeads repoId oldIds newId => exact matches_updateOpHeads h oldIds newId

theorem clients_simulates (hkeeps : KeepsValues B) :
    Simulates (clients J P B) ((cloud J P B).comap Call.command) Represents Tells where
  answer _ _ call h := (clients_matches_cloud hkeeps h call).1
  state _ _ call h := (clients_matches_cloud hkeeps h call).2

theorem represents_finalState (hkeeps : KeepsValues B) (calls : List (Call J)) :
    Represents ((clients J P B).finalState MemoryStore.new calls)
      ((cloud J P B).finalState Cloud.new (calls.map Call.command)) := by
  rw [← Reactive.comap_finalState]
  exact (clients_simulates hkeeps).finalState .new calls

/--
In every run of any number of clients each call is told what the cloud answers
to its command, and the store of the server represents the cloud in the end.
-/
theorem clients_refine_cloud (hkeeps : KeepsValues B) (calls : List (Call J)) :
    List.Forall₂ (fun called asked =>
        called.1.command = asked.1 ∧ Tells called.2 asked.2)
      ((clients J P B).trace MemoryStore.new calls)
      ((cloud J P B).trace Cloud.new (calls.map Call.command)) ∧
    Represents ((clients J P B).finalState MemoryStore.new calls)
      ((cloud J P B).finalState Cloud.new (calls.map Call.command)) := by
  refine ⟨?_, represents_finalState hkeeps calls⟩
  rw [Reactive.comap_trace, List.forall₂_map_right_iff]
  refine ((clients_simulates hkeeps).trace .new calls).imp ?_
  rintro called asked ⟨hsame, htells⟩
  exact ⟨congrArg Call.command hsame, htells⟩

theorem reference_keepsValues : KeepsValues .reference where
  names := JjBackend.reference_acceptsNames
  terms := JjBackend.reference_keepsTerms
  labels := JjBackend.reference_normalizesLabels

/-- A commit is written before its repository is there, and after. -/
def earlyCommit : List (Call .reference) :=
  [.writeCommit "repo" (conflictedCommit "author") none, .init "repo",
    .writeCommit "repo" (conflictedCommit "author") none,
    .readView .direct "repo" rootViewIdBytes]

theorem clients_refine_cloud_early :
    List.Forall₂ (fun called asked =>
        called.1.command = asked.1 ∧ Tells called.2 asked.2)
      ((clients .reference .reference .reference).trace MemoryStore.new earlyCommit)
      ((cloud .reference .reference .reference).trace Cloud.new
        (earlyCommit.map Call.command)) ∧
    Represents ((clients .reference .reference .reference).finalState MemoryStore.new
        earlyCommit)
      ((cloud .reference .reference .reference).finalState Cloud.new
        (earlyCommit.map Call.command)) :=
  clients_refine_cloud reference_keepsValues earlyCommit

end CommitCloud.Client

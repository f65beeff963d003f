import CommitCloud.Foundation.Duplicates
import CommitCloud.Server.ContentAddress
import CommitCloud.Server.HeadUpdates

/-!
# Requests that arrive twice

A client that does not see a response may send its request again, and the
duplicate may arrive late.  It changes nothing unless a request in between
stored another object under the same id or brought back a head that the
request replaces.
-/

namespace CommitCloud.Server

open Foundation CommitCloud.Proto.Backend CommitCloud.Proto.OpStore

/-! ## What a request stores -/

inductive Entry where
  | commit (repoId : RepoId) (id : CommitId) (commit : Commit)
  | tree (repoId : RepoId) (id : TreeId) (entries : List TreeEntry)
  | file (repoId : RepoId) (id : FileId) (content : Bytes)
  | operation (repoId : RepoId) (id : OpId) (op : Operation)
  | view (repoId : RepoId) (id : ViewId) (view : View)

def Entry.Stored (s : MemoryStore) : Entry → Prop
  | .commit repoId id value => s.getCommit repoId id = some value
  | .tree repoId id value => s.getTree repoId id = some value
  | .file repoId id value => s.getFile repoId id = some value
  | .operation repoId id value => s.getOperation repoId id = some value
  | .view repoId id value => s.getView repoId id = some value

def Entry.put (s : MemoryStore) : Entry → MemoryStore
  | .commit repoId id value => s.putCommit repoId id value
  | .tree repoId id value => s.putTree repoId id value
  | .file repoId id value => s.putFile repoId id value
  | .operation repoId id value => s.putOperation repoId id value
  | .view repoId id value => s.putView repoId id value

/-- Another object of the same kind, under the same id of the same repository. -/
def Entry.Replaces : Entry → Entry → Prop
  | .commit repoId id value, .commit repoId' id' value' =>
      repoId = repoId' ∧ id = id' ∧ value ≠ value'
  | .tree repoId id value, .tree repoId' id' value' =>
      repoId = repoId' ∧ id = id' ∧ value ≠ value'
  | .file repoId id value, .file repoId' id' value' =>
      repoId = repoId' ∧ id = id' ∧ value ≠ value'
  | .operation repoId id value, .operation repoId' id' value' =>
      repoId = repoId' ∧ id = id' ∧ value ≠ value'
  | .view repoId id value, .view repoId' id' value' =>
      repoId = repoId' ∧ id = id' ∧ value ≠ value'
  | _, _ => False

/-- The object that a request stores if its repository is registered. -/
def Request.entry (P : Platform) : Request → Option Entry
  | .writeCommit ⟨repoId, some commit⟩ =>
      (BackendService.commitIdOf P commit).map fun id =>
        .commit repoId id { commit with commitId := id }
  | .writeTree ⟨repoId, _, entries⟩ =>
      (computeGitTreeHash P entries).map fun id => .tree repoId id entries
  | .writeFile ⟨repoId, content⟩ =>
      some (.file repoId (computeGitBlobHash P content) content)
  | .writeOperation ⟨repoId, some op⟩ =>
      some (.operation repoId (hashOperation P op) op)
  | .writeView ⟨repoId, some view⟩ => some (.view repoId (hashView P view) view)
  | _ => none

variable {P : Platform} {s s' : MemoryStore} {req req' : Request} {answer : Answer}
  {entry entry' : Entry}

theorem Entry.stored_put (s : MemoryStore) (entry : Entry) :
    entry.Stored (entry.put s) := by
  cases entry <;> exact Nested.lookup_put_self ..

/-- An entry is not disturbed by one that does not replace it. -/
theorem Entry.Stored.put (h : entry.Stored s) (hreplaces : ¬ entry'.Replaces entry) :
    entry.Stored (entry'.put s) := by
  cases entry with
  | commit repoId id commit =>
      cases entry' with
      | commit => exact Nested.lookup_put_of_kept h hreplaces
      | _ => exact h
  | tree repoId id entries =>
      cases entry' with
      | tree => exact Nested.lookup_put_of_kept h hreplaces
      | _ => exact h
  | file repoId id content =>
      cases entry' with
      | file => exact Nested.lookup_put_of_kept h hreplaces
      | _ => exact h
  | operation repoId id op =>
      cases entry' with
      | operation => exact Nested.lookup_put_of_kept h hreplaces
      | _ => exact h
  | view repoId id view =>
      cases entry' with
      | view => exact Nested.lookup_put_of_kept h hreplaces
      | _ => exact h

theorem Entry.Stored.put_eq_self (h : entry.Stored s) : entry.put s = s := by
  cases entry with
  | commit => exact congrArg (fun t => { s with commits := t }) (Nested.put_eq_self h)
  | tree => exact congrArg (fun t => { s with trees := t }) (Nested.put_eq_self h)
  | file => exact congrArg (fun t => { s with files := t }) (Nested.put_eq_self h)
  | operation => exact congrArg (fun t => { s with ops := t }) (Nested.put_eq_self h)
  | view => exact congrArg (fun t => { s with views := t }) (Nested.put_eq_self h)

/-! ## Updates of the heads -/

section Heads

variable {currentHeads oldIds oldIds' : List OpId} {newId newId' : OpId}

/-- No old id is left, and without old ids the new one is there. -/
def SettledHeads (heads oldIds : List OpId) (newId : OpId) : Prop :=
  (∀ head ∈ heads, head ∉ oldIds) ∧ (oldIds = [] → newId ∈ heads)

theorem settledHeads_updateHeads (hnew : newId ∉ oldIds) :
    SettledHeads (updateHeads currentHeads oldIds newId) oldIds newId := by
  constructor
  · intro head hhead hold
    rcases mem_updateHeads hhead with hcurrent | rfl
    · -- an old id among the heads makes the update remove it
      have heffect : TakesEffect currentHeads oldIds := .inr ⟨head, hcurrent, hold⟩
      rw [updateHeads_of_takesEffect heffect] at hhead
      have hgone : head ∉ retainedHeads currentHeads oldIds := fun h =>
        (mem_retainedHeads.mp h).2 hold
      split at hhead
      · exact hgone hhead
      · rcases List.mem_append.mp hhead with hhead | hhead
        · exact hgone hhead
        · exact hnew (List.mem_singleton.mp hhead ▸ hold)
    · exact hnew hold
  · exact fun hnil => newId_mem_updateHeads (.inl hnil)

theorem SettledHeads.updateHeads (h : SettledHeads currentHeads oldIds newId)
    (hback : newId' ∉ oldIds) (hkeep : ¬ (oldIds = [] ∧ newId ∈ oldIds')) :
    SettledHeads (updateHeads currentHeads oldIds' newId') oldIds newId := by
  constructor
  · intro head hhead
    rcases mem_updateHeads hhead with hcurrent | rfl
    · exact h.1 head hcurrent
    · exact hback
  · intro hnil
    exact mem_updateHeads_of_not_old (h.2 hnil) fun hold => hkeep ⟨hnil, hold⟩

theorem SettledHeads.updateHeads_eq_self (h : SettledHeads currentHeads oldIds newId) :
    Server.updateHeads currentHeads oldIds newId = currentHeads := by
  by_cases hnil : oldIds = []
  · have hretained : retainedHeads currentHeads oldIds = currentHeads :=
      retainedHeads_eq_self h.1
    rw [updateHeads_of_takesEffect (.inl hnil), hretained, if_pos (h.2 hnil)]
  · refine updateHeads_of_not_takesEffect ?_
    rintro (hempty | ⟨head, hhead, hold⟩)
    · exact hnil hempty
    · exact h.1 head hhead hold

end Heads

/-! ## Requests that are settled -/

/-- Once more, the request would store what is stored and leave the heads as they are. -/
def Request.Settled (P : Platform) (s : MemoryStore) : Request → Prop
  | .registerRepository _ uuid => s.isRepoRegistered uuid
  | .updateOpHeads ⟨repoId, oldIds, newId⟩ => ∃ heads,
      s.getOpHeads repoId = some heads ∧ SettledHeads heads oldIds newId
  | req => ∀ entry, req.entry P = some entry → entry.Stored s

/--
The second request stores another object under the id of the first, brings back
a head that the first replaces, or replaces the head that the first adds.
-/
def Request.Interferes (P : Platform) : Request → Request → Prop
  | .updateOpHeads req, .updateOpHeads req' => req'.repoId = req.repoId ∧
      (req'.newOpHeadId ∈ req.oldOpHeadIds ∨
        req.oldOpHeadIds = [] ∧ req.newOpHeadId ∈ req'.oldOpHeadIds)
  | req, req' => ∃ entry entry', req.entry P = some entry ∧
      req'.entry P = some entry' ∧ entry'.Replaces entry

/-- An update does not name its own new head as an old one. -/
def Request.NamesOthers : Request → Prop
  | .updateOpHeads req => req.newOpHeadId ∉ req.oldOpHeadIds
  | _ => True

/-! ## Steps -/

/-- What a step does to the objects: it puts the entry of its request, or keeps them. -/
theorem Step.stored (hstep : Step P s req answer s') (h : entry.Stored s)
    (hkept : ∀ entry', req.entry P = some entry' → ¬ entry'.Replaces entry) :
    entry.Stored s' := by
  cases hstep with
  | commitWritten repoId commit id hreg hid =>
      exact h.put (hkept (.commit repoId id { commit with commitId := id })
        (by simp [Request.entry, hid]))
  | treeWritten repoId path entries id hreg hid =>
      exact h.put (hkept (.tree repoId id entries) (by simp [Request.entry, hid]))
  | fileWritten repoId content => exact h.put (hkept (.file repoId _ content) rfl)
  | operationWritten repoId op => exact h.put (hkept (.operation repoId _ op) rfl)
  | viewWritten repoId view => exact h.put (hkept (.view repoId _ view) rfl)
  | _ => cases entry <;> exact h

theorem Step.state_of_settled (hstep : Step P s req answer s') (h : req.Settled P s) :
    s' = s := by
  cases hstep with
  | repoRegistered req uuid =>
      have hrepos : Function.update s.repos uuid true = s.repos := by
        rw [Function.update_eq_self_iff]
        exact Eq.symm h
      rw [MemoryStore.registerRepo, hrepos]
  | commitWritten repoId commit id hreg hid =>
      exact (h (.commit repoId id { commit with commitId := id })
        (by simp [Request.entry, hid])).put_eq_self
  | treeWritten repoId path entries id hreg hid =>
      exact (h (.tree repoId id entries) (by simp [Request.entry, hid])).put_eq_self
  | fileWritten repoId content => exact (h (.file repoId _ content) rfl).put_eq_self
  | operationWritten repoId op => exact (h (.operation repoId _ op) rfl).put_eq_self
  | viewWritten repoId view => exact (h (.view repoId _ view) rfl).put_eq_self
  | headsUpdated repoId oldIds newId hreg =>
      obtain ⟨heads, hstored, hheads⟩ := h
      have hentry : s.opHeads repoId = some heads := hstored
      have hsame : s.opHeads.insert repoId (updateHeads heads oldIds newId) = s.opHeads := by
        rw [hheads.updateHeads_eq_self, Table.insert_eq_self hentry]
      rw [MemoryStore.updateOpHeads, hentry, Option.getD_some, hsame]
  | unchanged => rfl

theorem Step.settled (hstep : Step P s req' answer s') (h : req.Settled P s)
    (hinterferes : ¬ req.Interferes P req') : req.Settled P s' := by
  cases req with
  | registerRepository req uuid => exact hstep.isRepoRegistered h
  | updateOpHeads req =>
      obtain ⟨heads, hstored, hheads⟩ := h
      cases hstep with
      | headsUpdated repoId oldIds newId hreg =>
          by_cases hrepo : repoId = req.repoId
          · subst hrepo
            have hentry : s.opHeads req.repoId = some heads := hstored
            refine ⟨updateHeads heads oldIds newId, ?_, hheads.updateHeads
              (fun hback => hinterferes ⟨rfl, .inl hback⟩)
              fun hkeep => hinterferes ⟨rfl, .inr hkeep⟩⟩
            simp [MemoryStore.getOpHeads, MemoryStore.updateOpHeads, hentry]
          · refine ⟨heads, ?_, hheads⟩
            have hother : req.repoId ≠ repoId := Ne.symm hrepo
            simpa [MemoryStore.getOpHeads, MemoryStore.updateOpHeads, hother] using hstored
      | _ => exact ⟨heads, hstored, hheads⟩
  | _ =>
      exact fun entry hentry => hstep.stored (h entry hentry) fun entry' hentry' hreplaces =>
        hinterferes ⟨entry, entry', hentry, hentry', hreplaces⟩

/-- A request that stores an object is answered alike in all states. -/
theorem server_entry (hentry : req.entry P = some entry) :
    ∃ response, ∀ s, s.isRepoRegistered req.repoId →
      server P s req = (.ok response, entry.put s) := by
  cases req with
  | writeCommit req =>
      obtain ⟨repoId, _ | commit⟩ := req
      · cases hentry
      · obtain ⟨id, hid, rfl⟩ := Option.map_eq_some_iff.mp hentry
        refine ⟨.writeCommit ⟨id⟩, fun s hreg => ?_⟩
        have hregistered : s.isRepoRegistered repoId := hreg
        simp [server, handle, BackendService.call_writeCommit, hregistered, hid, Entry.put]
  | writeTree req =>
      obtain ⟨id, hid, rfl⟩ := Option.map_eq_some_iff.mp hentry
      refine ⟨.writeTree ⟨id⟩, fun s hreg => ?_⟩
      have hregistered : s.isRepoRegistered req.repoId := hreg
      simp [server, handle, BackendService.call_writeTree, hregistered, hid, Entry.put]
  | writeFile req =>
      obtain rfl := Option.some.inj hentry
      refine ⟨.writeFile ⟨computeGitBlobHash P req.content⟩, fun s hreg => ?_⟩
      have hregistered : s.isRepoRegistered req.repoId := hreg
      simp [server, handle, BackendService.call_writeFile, hregistered, Entry.put]
  | writeOperation req =>
      obtain ⟨repoId, _ | op⟩ := req
      · cases hentry
      · obtain rfl := Option.some.inj hentry
        refine ⟨.writeOperation ⟨hashOperation P op⟩, fun s hreg => ?_⟩
        have hregistered : s.isRepoRegistered repoId := hreg
        simp [server, handle, OpStoreService.call_writeOperation, hregistered, Entry.put]
  | writeView req =>
      obtain ⟨repoId, _ | view⟩ := req
      · cases hentry
      · obtain rfl := Option.some.inj hentry
        refine ⟨.writeView ⟨hashView P view⟩, fun s hreg => ?_⟩
        have hregistered : s.isRepoRegistered repoId := hreg
        simp [server, handle, OpStoreService.call_writeView, hregistered, Entry.put]
  | _ => cases hentry

/-- A request that finds its repository registered is settled when it was handled. -/
theorem settled_server (hnames : req.NamesOthers)
    (hreg : req.IsRegistration ∨ s.isRepoRegistered req.repoId) :
    req.Settled P (server P s req).2 := by
  cases req with
  | registerRepository req uuid => exact Function.update_self ..
  | updateOpHeads req =>
      have hregistered : s.isRepoRegistered req.repoId := hreg.resolve_left id
      rw [server_updateOpHeads, if_pos hregistered]
      exact ⟨_, Table.insert_self .., settledHeads_updateHeads hnames⟩
  | _ =>
      intro entry hentry
      obtain ⟨response, hserver⟩ := server_entry hentry
      rw [hserver s (hreg.resolve_left id)]
      exact entry.stored_put s

theorem settles (P : Platform) :
    Settles (server P) (fun s req => req.Settled P s) (Request.Interferes P) where
  done s req h := (server_step P s req).state_of_settled h
  kept s _ req' h hinterferes := (server_step P s req').settled h hinterferes

/-! ## Late duplicates -/

/-- The duplicate changes nothing, and a write of an object is answered as it was. -/
structure DuplicateHarmless (P : Platform) (before : List Request) (req : Request)
    (between : List Request) : Prop where
  state : (server P).finalState MemoryStore.new (before ++ req :: between ++ [req]) =
    (server P).finalState MemoryStore.new (before ++ req :: between)
  answer : req.entry P ≠ none →
    (server P ((server P).finalState MemoryStore.new (before ++ req :: between)) req).1 =
      (server P ((server P).finalState MemoryStore.new before) req).1

/--
A late duplicate is harmless if no request in between stored another object
under the same id or brought back a head.
-/
theorem late_duplicate (P : Platform) {before between : List Request} {req : Request}
    (hreg : req.IsRegistration ∨
      ((server P).finalState MemoryStore.new before).isRepoRegistered req.repoId)
    (hnames : req.NamesOthers)
    (hbetween : ∀ req' ∈ between, ¬ req.Interferes P req') :
    DuplicateHarmless P before req between where
  state := by
    rw [List.append_assoc, (server P).finalState_append _ before,
      (server P).finalState_append _ before]
    exact (settles P).finalState_duplicate (settled_server hnames hreg) hbetween
  answer hstores := by
    obtain ⟨entry, hentry⟩ := Option.ne_none_iff_exists'.mp hstores
    obtain ⟨response, hserver⟩ := server_entry hentry
    have hregistered : ((server P).finalState MemoryStore.new before).isRepoRegistered
        req.repoId := by
      refine hreg.resolve_left fun hregistration => ?_
      cases req with
      | registerRepository => cases hentry
      | _ => exact hregistration
    rw [hserver _ hregistered, hserver _ (registered_append hregistered _)]

/-- An update of the heads arrives again after another client's update. -/
theorem late_duplicate_update :
    DuplicateHarmless .reference [.registerRepository {} "repo"]
      (.updateOpHeads ⟨"repo", [rootOperationIdBytes], [1]⟩)
      [.updateOpHeads ⟨"repo", [[1]], [2]⟩] := by
  refine late_duplicate .reference (.inr rfl) ?_ fun req' hreq' => ?_
  · exact (by decide : [1] ∉ [rootOperationIdBytes])
  · obtain rfl := List.mem_singleton.mp hreq'
    rintro ⟨-, hback | ⟨hnil, -⟩⟩
    · exact absurd hback (by decide)
    · cases hnil

end CommitCloud.Server

import CommitCloud.Client.Session

/-!
# The client's operation heads store

`lib/src/cc_op_heads_store.rs`.  The lock of this store excludes nobody, so a
client's calls interleave freely with those of others.
-/

namespace CommitCloud.Client.OpHeadsStore

open Foundation CommitCloud.Server CommitCloud.Proto.OpStore

variable (repoId : RepoId)

/-- The response, which carries the current heads, is discarded. -/
def updateOpHeads (oldIds : List OpId) (newId : OpId) : Session Unit :=
  Session.rpc
    (OpStoreService.updateOpHeads
      { repoId := repoId, oldOpHeadIds := oldIds, newOpHeadId := newId })
    fun _ => .ok ()

def getOpHeads : Session (List OpId) :=
  Session.rpc (OpStoreService.getOpHeads { repoId := repoId })
    fun response => .ok response.opHeadIds

variable {repoId} {s : MemoryStore}

theorem updateOpHeads_eq (hreg : s.isRepoRegistered repoId)
    (oldIds : List OpId) (newId : OpId) :
    updateOpHeads repoId oldIds newId s =
      (.ok (), (s.updateOpHeads repoId oldIds newId).2) := by
  simp [updateOpHeads, Session.rpc, remoteCall, OpStoreService.call_updateOpHeads, hreg]

theorem getOpHeads_eq (hreg : s.isRepoRegistered repoId) :
    getOpHeads repoId s = (.ok (s.heads repoId), s) := by
  simp [getOpHeads, Session.rpc, remoteCall, OpStoreService.call_getOpHeads, hreg]

end CommitCloud.Client.OpHeadsStore

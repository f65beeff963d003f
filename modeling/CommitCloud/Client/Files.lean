import CommitCloud.Client.Backend
import CommitCloud.Gix.Decoding
import CommitCloud.Server.ContentAddress

/-!
# Files through the cloud

A file is stored under the hash of its content.  So another write under the
same id writes the same content, and a file that was written is read back from
then on, whatever else happens and however its stream is cut.
-/

namespace CommitCloud.Client.Backend

open Foundation CommitCloud.Server CommitCloud.Proto.Backend

variable {P : Platform} {D : Delivery} {repoId : RepoId} {s : MemoryStore}

/-! ## The calls -/

theorem readFile_eq {id : FileId} {content : Bytes}
    (hreg : s.isRepoRegistered repoId)
    (hstored : s.getFile repoId id = some content) :
    readFile D repoId id s = (.ok content, s) := by
  have hjoined := D.joined [{ chunk := content }]
  simp only [List.flatMap_cons, List.flatMap_nil, List.append_nil] at hjoined
  simp only [readFile, rpc, remoteCall, BackendService.call_readFile, hreg, hstored, if_true]
  rw [List.foldl_append_eq_append, ← List.flatMap_def, hjoined, List.nil_append]

/-- A write that returns is a write that the server accepted. -/
theorem writeFile_ok {contents : Bytes} {id : FileId} {s' : MemoryStore}
    (h : writeFile P repoId contents s = (.ok id, s')) :
    server P s (.writeFile ⟨repoId, contents⟩) = (.ok (.writeFile ⟨id⟩), s') := by
  obtain ⟨response, hcall, hid⟩ := remoteCall_eq_ok_iff.mp h
  obtain rfl := Except.ok.inj hid
  simp only [server, handle, Handler.call_map, hcall]

/-! ## Durability -/

/-- The contents that a run gives the server to hash. -/
def blobs (requests : List Request) : Set Bytes :=
  { content | ∃ repoId, .writeFile ⟨repoId, content⟩ ∈ requests }

theorem mem_blobs_of_written {requests : List Request} {key : RepoId × FileId}
    {content : Bytes}
    (h : Written WroteFile ((server P).trace s requests) key content) :
    content ∈ blobs requests ∧ computeGitBlobHash P content = key.2 := by
  obtain ⟨before, req, hinitial, hwrote⟩ := written_iff.mp h
  obtain ⟨rfl, -, hid, -⟩ := (server_step P _ _).wroteFile hwrote
  exact ⟨⟨key.1, hinitial.subset (by simp)⟩, hid⟩

/-- What a run wrote under an id is what it last stored there. -/
theorem stored_of_written {requests : List Request} {id : FileId}
    {content : Bytes} (hsha : P.Sha1InjOn .blob (blobs requests))
    (h : Written WroteFile ((server P).trace MemoryStore.new requests)
      (repoId, id) content) :
    ((server P).finalState MemoryStore.new requests).getFile repoId id =
      some content := by
  -- a later write under the id may have replaced the content
  obtain ⟨stored, hstored⟩ := filled_files.present h
  have hwritten := filled_files.provenance (fun _ => rfl) (repoId, id) hstored
  obtain ⟨hgiven, hid⟩ := mem_blobs_of_written h
  obtain ⟨hgiven', hid'⟩ := mem_blobs_of_written hwritten
  obtain rfl := (Platform.computeHash_eq_iff hsha hgiven' hgiven).mp
    (hid'.trans hid.symm)
  exact hstored

theorem files_durable {before between : List Request} {contents : Bytes}
    {id : FileId} {s' : MemoryStore}
    (hsha : P.Sha1InjOn .blob
      (blobs (before ++ .writeFile ⟨repoId, contents⟩ :: between)))
    (hwrite : writeFile P repoId contents
      ((server P).finalState MemoryStore.new before) = (.ok id, s')) :
    (readFile D repoId id ((server P).finalState s' between)).1 =
      .ok contents := by
  have hcall := writeFile_ok hwrite
  have hstate : (server P).finalState s' between =
      (server P).finalState MemoryStore.new
        (before ++ .writeFile ⟨repoId, contents⟩ :: between) := by
    rw [Reactive.finalState_append, Reactive.finalState_cons, hcall]
  have hwritten : Written WroteFile ((server P).trace MemoryStore.new
      (before ++ .writeFile ⟨repoId, contents⟩ :: between)) (repoId, id)
      contents := by
    refine written_iff.mpr
      ⟨before, .writeFile ⟨repoId, contents⟩, ⟨between, by simp⟩, ?_⟩
    rw [hcall]
    exact .mk repoId contents id
  have hreg := registered_of_written
    (fun hstep hwrote => (hstep.wroteFile hwrote).2.1) hwritten
  rw [hstate, readFile_eq hreg (stored_of_written hsha hwritten)]

/-- The empty file is read back after another file was written. -/
theorem files_durable_empty :
    (readFile .whole "repo" (computeGitBlobHash .reference [])
      ((server .reference).finalState
        ((MemoryStore.new.registerRepo "repo").putFile "repo"
          (computeGitBlobHash .reference []) [])
        [.writeFile ⟨"repo", [1]⟩])).1 = .ok [] := by
  have hwrite : writeFile .reference "repo" []
      ((server .reference).finalState MemoryStore.new
        [.registerRepository {} "repo"]) =
      (.ok (computeGitBlobHash .reference []),
        (MemoryStore.new.registerRepo "repo").putFile "repo"
          (computeGitBlobHash .reference []) []) := rfl
  refine files_durable ?_ hwrite
  have hgiven : blobs [.registerRepository {} "repo", .writeFile ⟨"repo", []⟩,
      .writeFile ⟨"repo", [1]⟩] ⊆ {[], [1]} := by
    rintro content ⟨repoId, hmem⟩
    simp only [List.mem_cons, reduceCtorEq, false_or, Request.writeFile.injEq,
      WriteFileRequest.mk.injEq, List.not_mem_nil, or_false] at hmem
    exact hmem.imp And.right And.right
  have hne : Platform.reference.computeHash .blob [] ≠
      Platform.reference.computeHash .blob [1] := by decide +kernel
  exact Platform.injOn_hashInput_of_pair hgiven hne

end CommitCloud.Client.Backend

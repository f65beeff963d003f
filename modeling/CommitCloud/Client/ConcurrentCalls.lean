import CommitCloud.Client.Refinement
import CommitCloud.Server.Concurrent

/-!
# Concurrent clients and the cloud

Clients call the server concurrently, and its handlers interleave.  What the
clients are told is what the cloud answers, given their calls one after the
other in an order that respects which calls returned before which were made.
-/

namespace CommitCloud.Client

open Foundation CommitCloud.Server

variable {J : JjLib} {P : Platform} {B : JjBackend}

/-- The client that made the call, and was answered so, concludes this. -/
def Concludes (P : Platform) (B : JjBackend) (call : Call J) (answer : Answer)
    (outcome : Outcome J) : Prop :=
  ∃ s req, call.request = some req ∧ (server P s req).1 = answer ∧
    (clients J P B s call).1 = outcome

/-- The outcome goes by the answer, and not by the store that it came from. -/
theorem concludes_iff {call : Call J} {answer : Answer} {s : MemoryStore} {req : Request}
    (hreq : call.request = some req) (hanswer : (server P s req).1 = answer)
    (outcome : Outcome J) :
    Concludes P B call answer outcome ↔ outcome = (clients J P B s call).1 := by
  constructor
  · rintro ⟨s', req', hreq', hanswer', rfl⟩
    obtain rfl := Option.some.inj (hreq.symm.trans hreq')
    refine clients_answer (P := P) fun req'' hreq'' => ?_
    obtain rfl := Option.some.inj (hreq.symm.trans hreq'')
    rw [hanswer, hanswer']
  · rintro rfl
    exact ⟨s, req, hreq, hanswer, rfl⟩

variable {κ : Type*}

/-- What the clients do to the cloud with their calls in this order. -/
def commandsOf (calls : κ → Call J) (order : List κ) : List (Command J) :=
  order.map fun call => (calls call).command

/-- The calls of an execution in an order in which the cloud explains it. -/
structure CloudExplains (P : Platform) (B : JjBackend) (calls : κ → Call J)
    (events : List (Event κ Request Answer)) (c : Config κ MemoryStore Answer)
    (order : List κ) : Prop where
  nodup : order.Nodup
  made : ∀ call ∈ order, ∃ request, .invoke call request ∈ events
  answered : ∀ call answer, .respond call answer ∈ events → call ∈ order
  told : ∀ before call after answer, order = before ++ call :: after →
    .respond call answer ∈ events →
    ∃ outcome, (∀ concluded, Concludes P B (calls call) answer concluded ↔
        concluded = outcome) ∧
      Tells outcome (cloud J P B
        ((cloud J P B).finalState Cloud.new (commandsOf calls before)) (calls call).command).1
  realTime : ∀ call call', Precedes events call call' → call' ∈ order →
    [call, call'].Sublist order
  store : Represents c.store ((cloud J P B).finalState Cloud.new (commandsOf calls order))

section Sent

variable {calls : κ → Call J} {entries : List (κ × Request × Answer)}

/-- The server, given the requests of the clients, represents the cloud. -/
theorem represents_of_sent (hkeeps : KeepsValues B)
    (hsent : ∀ entry ∈ entries, (calls entry.1).request = some entry.2.1) :
    Represents ((server P).finalState MemoryStore.new (entries.map fun entry => entry.2.1))
      ((cloud J P B).finalState Cloud.new (commandsOf calls (entries.map Prod.fst))) := by
  have hrequests : (entries.map fun entry => calls entry.1).filterMap Call.request =
      entries.map fun entry => entry.2.1 := by
    rw [List.filterMap_map, ← List.filterMap_eq_map]
    exact List.filterMap_congr fun entry hentry => hsent entry hentry
  have hrepresents := represents_finalState (P := P) hkeeps
    (entries.map fun entry => calls entry.1)
  rw [clients_finalState, hrequests, List.map_map] at hrepresents
  rw [commandsOf, List.map_map]
  exact hrepresents

end Sent

/--
Whichever way the handlers interleave that serve the clients, there is an order
of the calls in which the cloud explains what the clients are told and what the
server then holds.
-/
theorem concurrent_clients_refine_cloud [DecidableEq κ] (hkeeps : KeepsValues B)
    (calls : κ → Call J) {events : List (Event κ Request Answer)}
    {c : Config κ MemoryStore Answer}
    (hsent : ∀ call request, .invoke call request ∈ events →
      (calls call).request = some request)
    (hexec : Config.Exec (program P) (Config.start κ Answer MemoryStore.new) events c) :
    ∃ order, CloudExplains P B calls events c order := by
  obtain ⟨entries, h⟩ := (lastAccessRule P).linearizable hexec
  have hentries : ∀ entry ∈ entries, (calls entry.1).request = some entry.2.1 :=
    fun entry hentry => hsent _ _ (h.invoked _ _ _ hentry)
  refine ⟨entries.map Prod.fst, h.nodup, fun call hcall => ?_, fun call answer hresponse => ?_,
    fun before call after answer hsplit hresponse => ?_, h.realTime, ?_⟩
  · obtain ⟨⟨call, request, answer⟩, hentry, rfl⟩ := List.mem_map.mp hcall
    exact ⟨request, h.invoked call request answer hentry⟩
  · exact h.mem_of_responded ⟨answer, hresponse⟩
  · obtain ⟨before, rest, rfl, rfl, hrest⟩ := List.map_eq_append_iff.mp hsplit
    obtain ⟨⟨call, request, answer'⟩, after, rfl, rfl, rfl⟩ := List.map_eq_cons_iff.mp hrest
    obtain rfl : answer = answer' :=
      h.answer_unique (List.mem_append_right before List.mem_cons_self) hresponse
    have hrequest := hentries (call, request, answer) (by simp)
    have hbefore := represents_of_sent (P := P) hkeeps fun entry hentry =>
      hentries entry (List.mem_append_left _ hentry)
    exact ⟨_, concludes_iff hrequest h.answer_eq,
      (clients_matches_cloud hkeeps hbefore (calls call)).1⟩
  · rw [← h.store]
    exact represents_of_sent hkeeps hentries

/-- A client creates the repository while another one asks for its heads. -/
def creationAndQuestion : Bool → Call .reference
  | true => .init "repo"
  | false => .getOpHeads "repo"

theorem concurrent_clients_refine_cloud_overlapping :
    ∃ (c : Config Bool MemoryStore Answer) (order : List Bool),
      CloudExplains .reference .reference creationAndQuestion
        [.invoke false (.getOpHeads ⟨"repo"⟩),
          .invoke true (.registerRepository {} "repo"), .access true, .access false,
          .access false, .respond false (.ok (.getOpHeads ⟨[rootOperationIdBytes]⟩))]
        c order := by
  have hinvoked : Config.Exec (program .reference)
      (Config.start Bool Answer MemoryStore.new)
      ([] ++ [.invoke false (.getOpHeads ⟨"repo"⟩)] ++
        [.invoke true (.registerRepository {} "repo")]) _ :=
    .snoc (.snoc .nil (.invoke rfl)) (.invoke rfl)
  have hregistered : Config.Exec _ _ (_ ++ [.access true]) _ :=
    hinvoked.snoc (.access rfl)
  have hread : Config.Exec _ _ ((_ ++ [.access false]) ++ [.access false]) _ :=
    (hregistered.snoc (.access rfl)).snoc (.access rfl)
  have hanswered : Config.Exec _ _ (_ ++ [.respond false _]) _ :=
    hread.snoc (.respond rfl)
  refine ⟨_, concurrent_clients_refine_cloud reference_keepsValues creationAndQuestion
    (fun call request hmade => ?_) hanswered⟩
  cases call <;> simp_all [creationAndQuestion, Call.request]

end CommitCloud.Client

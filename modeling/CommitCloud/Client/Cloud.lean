import CommitCloud.Client.Values

/-!
# The cloud, in the terms of jj

What a client may take the cloud for: repositories that hold values of jj under
ids, and their heads.  There are no messages, no transports and no encodings.
Of an encoding only two things are left: the id it gives a value, and what of a
value is read back.
-/

namespace CommitCloud.Client

open Foundation CommitCloud.Server Backend OpStore

variable {J : JjLib}

structure Key where
  kind : Kind
  repoId : RepoId
  id : Bytes
  deriving DecidableEq

@[ext] structure Cloud (J : JjLib) where
  registered : RepoId → Bool
  objects : Table Key (Value J)
  heads : RepoId → List OpId

inductive Command (J : JjLib) where
  | create (repoId : RepoId)
  | read (key : Key)
  | write (repoId : RepoId) (value : Value J)
  | getHeads (repoId : RepoId)
  | publish (repoId : RepoId) (oldIds : List OpId) (newId : OpId)

inductive Reply (J : JjLib) where
  | created (repoId : RepoId)
  | value (value : Value J)
  | written (id : Bytes)
  | heads (ids : List OpId)
  | published

inductive Refusal where
  | notFound
  | unsupported
  | serverPanicked
  deriving DecidableEq

abbrev CloudAnswer (J : JjLib) := Except Refusal (Reply J)

/-! ## Values that no store is asked for -/

section Known

variable (J) (B : JjBackend)

/-- A client knows the root commit and the empty tree. -/
def builtIn (key : Key) : Option (Value J) :=
  match key.kind with
  | .commit =>
      if key.id = rootCommitIdBytes then
        some (.commit (B.makeRootCommit rootChangeIdBytes emptyTreeIdBytes))
      else none
  | .tree => if key.id = emptyTreeIdBytes then some (.tree ⟨[], .nil⟩) else none
  | _ => none

def rootOperation : Jj.Operation where
  viewId := rootViewIdBytes
  parents := []
  metadata := {
    time := ⟨⟨0, 0⟩, ⟨0, 0⟩⟩
    description := "root()"
    hostname := ""
    username := ""
    isSnapshot := false
    workspaceName := none
    attributes := .empty }
  commitPredecessors := some .empty

def rootView : Jj.View J.RefTarget where
  headIds := ⟨[rootCommitIdBytes], List.nodup_singleton _⟩
  wcCommitIds := .empty
  localBookmarks := .empty
  localTags := .empty
  remoteViews := .empty
  gitRefs := .empty
  gitHead := J.absent

/-- What a repository has under the root ids as long as nothing is stored there. -/
def rootValue (key : Key) : Option (Value J) :=
  match key.kind with
  | .operation =>
      if key.id = rootOperationIdBytes then some (.operation rootOperation) else none
  | .view => if key.id = rootViewIdBytes then some (.view (rootView J)) else none
  | _ => none

end Known

namespace Value

def isEmptyTree : Value J → Bool
  | .tree value => value.entries.isEmpty
  | _ => false

/-- Submodules are not supported. -/
def supported : Value J → Bool
  | .tree value => value.entries.all fun entry =>
      match entry.2 with
      | .gitSubmodule _ => false
      | _ => true
  | _ => true

/-- The id of the value, or `none` where the server panics. -/
def id? (P : Platform) : Value J → Option Bytes
  | .file contents => some (computeGitBlobHash P contents)
  | .tree value =>
      (value.entries.mapM treeEntryToProto).toOption.bind (computeGitTreeHash P)
  | .commit value => computeGitCommitHash P (commitToProto value)
  | .view value => some (hashView P (viewToProto J value))
  | .operation value => some (hashOperation P (operationToProto value))

end Value

/-! ## The machine -/

namespace Cloud

def new : Cloud J where
  registered := fun _ => false
  objects := Table.empty
  heads := fun _ => [rootOperationIdBytes]

def register (c : Cloud J) (repoId : RepoId) : Cloud J :=
  { c with registered := Function.update c.registered repoId true }

def put (c : Cloud J) (key : Key) (value : Value J) : Cloud J :=
  { c with objects := c.objects.insert key value }

def publish (c : Cloud J) (repoId : RepoId) (oldIds : List OpId) (newId : OpId) :
    Cloud J :=
  { c with
    heads := Function.update c.heads repoId (updateHeads (c.heads repoId) oldIds newId) }

/-- The value that a registered repository gives for a key. -/
def readable (c : Cloud J) (key : Key) : Option (Value J) :=
  ((c.objects key).map Value.readBack).or (rootValue J key)

variable (c : Cloud J)

@[simp] theorem registered_register_self (repoId : RepoId) :
    (c.register repoId).registered repoId = true :=
  Function.update_self ..

@[simp] theorem registered_register_of_ne {repoId repoId' : RepoId}
    (h : repoId' ≠ repoId) :
    (c.register repoId).registered repoId' = c.registered repoId' :=
  Function.update_of_ne h ..

@[simp] theorem objects_put_self (key : Key) (value : Value J) :
    (c.put key value).objects key = some value :=
  Table.insert_self ..

@[simp] theorem objects_put_of_ne {key key' : Key} (h : key' ≠ key) (value : Value J) :
    (c.put key value).objects key' = c.objects key' :=
  Table.insert_of_ne h ..

theorem readable_put_self (key : Key) (value : Value J) :
    (c.put key value).readable key = some value.readBack := by
  rw [readable, objects_put_self]
  rfl

theorem readable_put_of_ne {key key' : Key} (h : key' ≠ key) (value : Value J) :
    (c.put key value).readable key' = c.readable key' := by
  rw [readable, objects_put_of_ne c h, readable]

@[simp] theorem heads_publish_self (repoId : RepoId) (oldIds : List OpId) (newId : OpId) :
    (c.publish repoId oldIds newId).heads repoId =
      updateHeads (c.heads repoId) oldIds newId :=
  Function.update_self ..

@[simp] theorem heads_publish_of_ne {repoId repoId' : RepoId} (h : repoId' ≠ repoId)
    (oldIds : List OpId) (newId : OpId) :
    (c.publish repoId oldIds newId).heads repoId' = c.heads repoId' :=
  Function.update_of_ne h ..

end Cloud

variable (J) (P : Platform) (B : JjBackend)

def cloud : Reactive (Cloud J) (Command J) (CloudAnswer J) := fun c command =>
  match command with
  | .create repoId => (.ok (.created repoId), c.register repoId)
  | .read key =>
      match builtIn J B key with
      | some value => (.ok (.value value), c)
      | none =>
          if c.registered key.repoId then
            match c.readable key with
            | some value => (.ok (.value value), c)
            | none => (.error .notFound, c)
          else (.error .notFound, c)
  | .write repoId value =>
      if value.isEmptyTree then (.ok (.written emptyTreeIdBytes), c)
      else if value.supported then
        if c.registered repoId then
          match value.id? P with
          | some id => (.ok (.written id), c.put ⟨value.kind, repoId, id⟩ value)
          | none => (.error .serverPanicked, c)
        else (.error .notFound, c)
      else (.error .unsupported, c)
  | .getHeads repoId =>
      if c.registered repoId then (.ok (.heads (c.heads repoId)), c)
      else (.error .notFound, c)
  | .publish repoId oldIds newId =>
      if c.registered repoId then (.ok .published, c.publish repoId oldIds newId)
      else (.error .notFound, c)

/-! ## The calls of a client, seen so -/

variable {J}

def Call.command : Call J → Command J
  | .init uuid => .create uuid
  | .readFile _ repoId id => .read ⟨.file, repoId, id⟩
  | .writeFile repoId contents => .write repoId (.file contents)
  | .readTree repoId _ id => .read ⟨.tree, repoId, id⟩
  | .writeTree repoId _ tree => .write repoId (.tree tree)
  | .readCommit repoId id => .read ⟨.commit, repoId, id⟩
  | .writeCommit repoId commit _ => .write repoId (.commit commit)
  | .readView _ repoId id => .read ⟨.view, repoId, id⟩
  | .writeView _ repoId view => .write repoId (.view view)
  | .readOperation _ repoId id => .read ⟨.operation, repoId, id⟩
  | .writeOperation _ repoId op => .write repoId (.operation op)
  | .getOpHeads repoId => .getHeads repoId
  | .updateOpHeads repoId oldIds newId => .publish repoId oldIds newId

/-- A panic of the client, or a response it cannot use, is no refusal. -/
def ClientError.refusal : ClientError → Option Refusal
  | .rpc (.status ⟨.notFound, _⟩) => some .notFound
  | .rpc .panicked => some .serverPanicked
  | _ => none

def Backend.BackendFailure.refusal : BackendFailure → Option Refusal
  | .error (.objectNotFound ..) => some .notFound
  | .error (.unsupported _) => some .unsupported
  | .error (.other source) => source.refusal
  | .panicked => none

def answerOf {ε α : Type} (refusal : ε → Option Refusal) (reply : α → Reply J) :
    Except ε α → Option (CloudAnswer J)
  | .ok a => some (.ok (reply a))
  | .error failure => (refusal failure).map .error

def Outcome.answer : Outcome J → Option (CloudAnswer J)
  | .init result => answerOf BackendFailure.refusal .created result
  | .readFile result => answerOf BackendFailure.refusal (.value ∘ .file) result
  | .writeFile result => answerOf BackendFailure.refusal .written result
  | .readTree result => answerOf BackendFailure.refusal (.value ∘ .tree) result
  | .writeTree result => answerOf BackendFailure.refusal .written result
  | .readCommit result => answerOf BackendFailure.refusal (.value ∘ .commit) result
  | .writeCommit result => answerOf BackendFailure.refusal (.written ∘ Prod.fst) result
  | .readView result => answerOf ClientError.refusal (.value ∘ .view) result
  | .writeView result => answerOf ClientError.refusal .written result
  | .readOperation result => answerOf ClientError.refusal (.value ∘ .operation) result
  | .writeOperation result => answerOf ClientError.refusal .written result
  | .getOpHeads result => answerOf ClientError.refusal .heads result
  | .updateOpHeads result => answerOf ClientError.refusal (fun _ => .published) result

/-- Answers that differ in the iteration order of a value at most. -/
inductive SameAnswer : CloudAnswer J → CloudAnswer J → Prop where
  | same (answer : CloudAnswer J) : SameAnswer answer answer
  | value {v w : Value J} (h : v.Equiv w) :
      SameAnswer (.ok (.value v)) (.ok (.value w))

theorem SameAnswer.equiv {v w : Value J}
    (h : SameAnswer (.ok (.value v)) (.ok (.value w))) : v.Equiv w := by
  cases h with
  | same => exact .refl v
  | value hequiv => exact hequiv

/-- The client is told what the cloud answers. -/
def Tells (outcome : Outcome J) (answer : CloudAnswer J) : Prop :=
  ∃ told, outcome.answer = some told ∧ SameAnswer told answer

theorem Tells.exists_value {outcome : Outcome J} {v : Value J}
    (h : Tells outcome (.ok (.value v))) :
    ∃ value, outcome.answer = some (.ok (.value value)) ∧ value.Equiv v := by
  obtain ⟨told, htold, hsame⟩ := h
  cases hsame with
  | same => exact ⟨v, htold, .refl v⟩
  | value hequiv => exact ⟨_, htold, hequiv⟩

/-- Only of a value the iteration order may differ. -/
theorem Tells.answer_eq {outcome : Outcome J} {answer : CloudAnswer J}
    (h : Tells outcome answer) (hvalue : ∀ v, answer ≠ .ok (.value v)) :
    outcome.answer = some answer := by
  obtain ⟨told, htold, hsame⟩ := h
  cases hsame with
  | same => exact htold
  | value => exact absurd rfl (hvalue _)

end CommitCloud.Client

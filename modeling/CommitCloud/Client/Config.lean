import CommitCloud.Client.Backend
import CommitCloud.Client.Disk
import CommitCloud.Foundation.Delimited

/-!
# Where a workspace keeps its repository

`CommitCloudConfig` of `lib/src/util.rs` names the server and the repository of
a workspace.  The backend writes it when a workspace is set up
(`CommitCloudBackend::init`), and each of the three stores reads it when it is
loaded.
-/

namespace CommitCloud.Client

open Foundation CommitCloud.Server

/-! ## The configuration -/

structure CommitCloudConfig where
  serverUrl : String
  repoId : RepoId
  deriving DecidableEq

/-- The TOML library, for the configuration. -/
structure Toml where
  toStringPretty : CommitCloudConfig → Option String
  fromStr : String → Option CommitCloudConfig

def Toml.RoundTrips (toml : Toml) : Prop :=
  ∀ config, ∃ text, toml.toStringPretty config = some text ∧ toml.fromStr text = some config

namespace Toml

def field (name value : String) : List Char :=
  name.toList ++ escape '\x22' '\\' value.toList ++ ['\x22']

def readField (name : String) (text : List Char) : Option (List Char × List Char) :=
  (text.dropPrefix? name.toList).bind (unquote '\x22' '\\')

theorem readField_field (name value : String) (rest : List Char) :
    readField name (field name value ++ rest) = some (value.toList, rest) := by
  have hname : (field name value ++ rest).dropPrefix? name.toList =
      some (escape '\x22' '\\' value.toList ++ '\x22' :: rest) := by
    simp only [field, List.append_assoc, List.singleton_append]
    exact List.dropPrefix?_append_of_beq _ (beq_self_eq_true _)
  rw [readField, hname, Option.bind_some, unquote_escape (by decide)]

/-- Writes and reads basic strings, as the library does where no other form is called for. -/
def reference : Toml where
  toStringPretty config := some <| String.ofList <|
    field "server_url = \x22" config.serverUrl ++
      (field "\nrepo_id = \x22" config.repoId ++ ['\n'])
  fromStr text := do
    let (serverUrl, rest) ← readField "server_url = \x22" text.toList
    let (repoId, rest) ← readField "\nrepo_id = \x22" rest
    if rest = ['\n'] then
      return ⟨String.ofList serverUrl, String.ofList repoId⟩
    else none

theorem reference_roundTrips : reference.RoundTrips := by
  intro config
  refine ⟨_, rfl, ?_⟩
  simp only [reference, String.toList_ofList, readField_field, Option.bind_eq_bind,
    Option.bind_some, if_pos, String.ofList_toList]
  rfl

end Toml

inductive ConfigError where
  | file (error : FileError)
  | toml
  | storePath (message : String)
  deriving DecidableEq

variable (toml : Toml)

def readConfig (disk : Disk) (path : Path) : Except ConfigError CommitCloudConfig :=
  match disk.readToString path with
  | .ok content => (toml.fromStr content).elim (.error .toml) .ok
  | .error error => .error (.file error)

/-- The stores of operations and of heads find the file beside them. -/
def loadFromStore (disk : Disk) (storePath : Path) :
    Except ConfigError CommitCloudConfig :=
  if disk.pathExists (storePath ++ ["config.toml"]) then
    readConfig toml disk (storePath ++ ["config.toml"])
  else
    match parent storePath with
    | some parent => readConfig toml disk (parent ++ ["store", "config.toml"])
    | none => .error (.storePath "store path should have contained config.toml")

theorem concat_config (repoPath : Path) (dir : String) :
    repoPath ++ [dir] ++ ["config.toml"] = repoPath ++ [dir, "config.toml"] :=
  List.append_assoc ..

/-! ## Servers -/

/-- The disk, and the stores of the servers by the address where they answer. -/
structure World where
  disk : Disk
  servers : Table String MemoryStore

namespace World

/-- A call over a connection of its own; `none` if no server answers. -/
def connect {α : Type} (w : World) (serverUrl : String)
    (session : MemoryStore → α × MemoryStore) : Option α × World :=
  match w.servers serverUrl with
  | none => (none, w)
  | some s =>
      (some (session s).1,
        { w with servers := w.servers.insert serverUrl (session s).2 })

variable {α : Type} {w : World} {serverUrl : String}
  {session : MemoryStore → α × MemoryStore}

theorem connect_of_none (h : w.servers serverUrl = none) :
    w.connect serverUrl session = (none, w) := by
  simp only [connect, h]

theorem connect_of_some {s : MemoryStore} (h : w.servers serverUrl = some s) :
    w.connect serverUrl session = (some (session s).1,
      { w with servers := w.servers.insert serverUrl (session s).2 }) := by
  simp only [connect, h]

end World

/-! ## Setting a workspace up -/

inductive SetupError where
  | unreachable
  | rpc (failure : Backend.BackendFailure)
  | config (error : ConfigError)
  deriving DecidableEq

def writeConfig (storePath : Path) (config : CommitCloudConfig) (w : World) :
    Except SetupError CommitCloudConfig × World :=
  match toml.toStringPretty config with
  | none => (.error (.config .toml), w)
  | some text =>
      match w.disk.write storePath "config.toml" text with
      | .error error => (.error (.config (.file error)), w)
      | .ok disk => (.ok config, { w with disk := disk })

/-- `CommitCloudBackend::init`.  The repository stays registered if the file cannot be written. -/
def initBackend (storePath : Path) (serverUrl : String) (uuid : RepoId) (w : World) :
    Except SetupError CommitCloudConfig × World :=
  match w.connect serverUrl (Backend.init uuid) with
  | (none, w) => (.error .unreachable, w)
  | (some (.error failure), w) => (.error (.rpc failure), w)
  | (some (.ok repoId), w) => writeConfig toml storePath ⟨serverUrl, repoId⟩ w

section InitBackend

variable {toml} {storePath : Path} {serverUrl : String} {uuid : RepoId} {w : World}

theorem initBackend_of_none (h : w.servers serverUrl = none) :
    initBackend toml storePath serverUrl uuid w = (.error .unreachable, w) := by
  rw [initBackend, World.connect_of_none h]

theorem initBackend_of_some {s : MemoryStore} (h : w.servers serverUrl = some s) :
    initBackend toml storePath serverUrl uuid w =
      writeConfig toml storePath ⟨serverUrl, uuid⟩
        { w with servers := w.servers.insert serverUrl (s.registerRepo uuid) } := by
  rw [initBackend, World.connect_of_some h]
  rfl

end InitBackend

/-- The initializers that `cmd_cc_init` gives to the workspace engine. -/
inductive Initializer where
  | backend
  | opStore
  | opHeadsStore
  deriving DecidableEq

/-- The configuration that the store comes with. -/
def runInitializer (repoPath : Path) (serverUrl : String) (uuid : RepoId) (w : World) :
    Initializer → Except SetupError CommitCloudConfig × World
  | .backend => initBackend toml (repoPath ++ ["store"]) serverUrl uuid w
  | .opStore =>
      ((loadFromStore toml w.disk (repoPath ++ ["op_store"])).mapError .config, w)
  | .opHeadsStore =>
      ((loadFromStore toml w.disk (repoPath ++ ["op_heads"])).mapError .config, w)

/-- The workspace engine runs the initializers in some order, up to one that fails. -/
def cmdCcInit (repoPath : Path) (serverUrl : String) (uuid : RepoId) (w : World) :
    List Initializer → Except SetupError (List (Initializer × CommitCloudConfig)) × World
  | [] => (.ok [], w)
  | initializer :: later =>
      match runInitializer toml repoPath serverUrl uuid w initializer with
      | (.error error, w) => (.error error, w)
      | (.ok config, w) =>
          (cmdCcInit repoPath serverUrl uuid w later).map
            (Except.map ((initializer, config) :: ·)) id

/-- The engine sets up the backend before the stores that look for its configuration. -/
def BackendFirst (order : List Initializer) : Prop :=
  ∃ later, order = .backend :: later ∧ later.Perm [.opStore, .opHeadsStore]

/-- How an attempt to set up a backend can end. -/
inductive InitStep (repoPath : Path) (serverUrl : String) (uuid : RepoId) (w : World) :
    Except SetupError CommitCloudConfig → World → Prop where
  | unreachable (hserver : w.servers serverUrl = none) :
      InitStep repoPath serverUrl uuid w (.error .unreachable) w
  | notWritten (error : ConfigError) (s : MemoryStore)
      (hserver : w.servers serverUrl = some s) :
      InitStep repoPath serverUrl uuid w (.error (.config error))
        { w with servers := w.servers.insert serverUrl (s.registerRepo uuid) }
  | written (s : MemoryStore) (text : String) (disk : Disk)
      (hserver : w.servers serverUrl = some s)
      (htext : toml.toStringPretty ⟨serverUrl, uuid⟩ = some text)
      (hdisk : disk.node =
        w.disk.node.insert (repoPath ++ ["store", "config.toml"]) (.text text)) :
      InitStep repoPath serverUrl uuid w (.ok ⟨serverUrl, uuid⟩)
        ⟨disk, w.servers.insert serverUrl (s.registerRepo uuid)⟩

theorem initBackend_step (repoPath : Path) (serverUrl : String) (uuid : RepoId)
    (w : World) :
    InitStep toml repoPath serverUrl uuid w
      (initBackend toml (repoPath ++ ["store"]) serverUrl uuid w).1
      (initBackend toml (repoPath ++ ["store"]) serverUrl uuid w).2 := by
  cases hserver : w.servers serverUrl with
  | none =>
      rw [initBackend_of_none hserver]
      exact .unreachable hserver
  | some s =>
      rw [initBackend_of_some hserver]
      unfold writeConfig
      split
      next => exact .notWritten _ s hserver
      next text htext =>
        split
        next => exact .notWritten _ s hserver
        next disk hwrite =>
          have hdisk := Disk.node_write hwrite
          rw [concat_config] at hdisk
          exact .written s text disk hserver htext hdisk

end CommitCloud.Client

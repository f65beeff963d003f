import CommitCloud.Client.Calls
import CommitCloud.Client.Config
import CommitCloud.Foundation.Provenance

/-!
# Workspaces at work

Any number of workspaces on one disk, each set up against one of several
servers.  A workspace is the directory that holds those of its three stores.
Whenever it calls a method of a store, the store is loaded from its own
directory and calls the server it finds in the configuration.
-/

namespace CommitCloud.Client

open Foundation CommitCloud.Server Backend OpStore

variable {J : JjLib}

/-! ## Methods of a loaded store -/

/-- The methods that call the server; the repository is that of the store. -/
inductive Method (J : JjLib) where
  | readFile (D : Delivery) (id : FileId)
  | writeFile (contents : Bytes)
  | readTree (path : String) (id : TreeId)
  | writeTree (path : String) (tree : Jj.Tree)
  | readCommit (id : CommitId)
  | writeCommit (commit : Jj.Commit) (signWith : Option SigningFn)
  | readView (T : Transport) (id : ViewId)
  | writeView (T : Transport) (view : Jj.View J.RefTarget)
  | readOperation (T : Transport) (id : OpId)
  | writeOperation (T : Transport) (op : Jj.Operation)
  | getOpHeads
  | updateOpHeads (oldIds : List OpId) (newId : OpId)

namespace Method

def call (repoId : RepoId) : Method J → Call J
  | readFile D id => .readFile D repoId id
  | writeFile contents => .writeFile repoId contents
  | readTree path id => .readTree repoId path id
  | writeTree path tree => .writeTree repoId path tree
  | readCommit id => .readCommit repoId id
  | writeCommit commit signWith => .writeCommit repoId commit signWith
  | readView T id => .readView T repoId id
  | writeView T view => .writeView T repoId view
  | readOperation T id => .readOperation T repoId id
  | writeOperation T op => .writeOperation T repoId op
  | getOpHeads => .getOpHeads repoId
  | updateOpHeads oldIds newId => .updateOpHeads repoId oldIds newId

/-- The directory of the store whose method it is. -/
def storeDir : Method J → String
  | readView .. | writeView .. | readOperation .. | writeOperation .. => "op_store"
  | getOpHeads | updateOpHeads .. => "op_heads"
  | _ => "store"

theorem storeDir_mem (method : Method J) : method.storeDir ∈ storeDirs := by
  cases method <;> simp [storeDir, storeDirs]

theorem request_repoId {method : Method J} {repoId : RepoId} {req : Request}
    (h : (method.call repoId).request = some req) : req.repoId = repoId := by
  cases method with
  | readTree path id | readCommit id =>
      simp only [call, Call.request] at h
      split at h
      · cases h
      · obtain rfl := Option.some.inj h
        rfl
  | writeTree path tree =>
      simp only [call, Call.request] at h
      split at h
      · cases h
      · obtain ⟨entries, -, rfl⟩ := Option.map_eq_some_iff.mp h
        rfl
  | _ =>
      obtain rfl := Option.some.inj h
      rfl

end Method

/-! ## The machine -/

/-- An act of a workspace, or of the environment that makes its directories. -/
inductive Act (J : JjLib) where
  | createStores (repoPath : Path)
  | init (repoPath : Path) (serverUrl : String) (uuid : RepoId)
  | call (repoPath : Path) (method : Method J)

def Act.repoPath : Act J → Path
  | createStores repoPath => repoPath
  | init repoPath _ _ => repoPath
  | call repoPath _ => repoPath

inductive Result (J : JjLib) where
  | created
  | init (result : Except SetupError CommitCloudConfig)
  | call (result : Except SetupError (Outcome J))

section Machine

variable (J) (toml : Toml) (P : Platform) (B : JjBackend)

/-- A method that sends nothing needs no connection. -/
def callFrom (w : World) (config : CommitCloudConfig) (method : Method J) :
    Except SetupError (Outcome J) × World :=
  match (method.call config.repoId).request with
  | none => (.ok (clients J P B MemoryStore.new (method.call config.repoId)).1, w)
  | some _ =>
      match w.connect config.serverUrl
          fun s => clients J P B s (method.call config.repoId) with
      | (none, w) => (.error .unreachable, w)
      | (some outcome, w) => (.ok outcome, w)

def workspaces : Reactive World (Act J) (Result J) := fun w act =>
  match act with
  | .createStores repoPath =>
      (.created, { w with disk := w.disk.createStores repoPath })
  | .init repoPath serverUrl uuid =>
      (initBackend toml (repoPath ++ ["store"]) serverUrl uuid w).map .init id
  | .call repoPath method =>
      match loadFromStore toml w.disk (repoPath ++ [method.storeDir]) with
      | .error error => (.call (.error (.config error)), w)
      | .ok config => (callFrom J P B w config method).map .call id

end Machine

variable {toml : Toml} {P : Platform} {B : JjBackend}

inductive WorldStep (toml : Toml) (P : Platform) (w : World) :
    Act J → Result J → World → Prop where
  | storesCreated (repoPath : Path) :
      WorldStep toml P w (.createStores repoPath) .created
        { w with disk := w.disk.createStores repoPath }
  | initialized (repoPath : Path) (serverUrl : String) (uuid : RepoId)
      (result : Except SetupError CommitCloudConfig) (w' : World)
      (hinit : InitStep toml repoPath serverUrl uuid w result w') :
      WorldStep toml P w (.init repoPath serverUrl uuid) (.init result) w'
  | served (repoPath : Path) (method : Method J) (outcome : Outcome J)
      (config : CommitCloudConfig) (s : MemoryStore) (req : Request)
      (hload : loadFromStore toml w.disk (repoPath ++ [method.storeDir]) = .ok config)
      (hserver : w.servers config.serverUrl = some s)
      (hreq : (method.call config.repoId).request = some req) :
      WorldStep toml P w (.call repoPath method) (.call (.ok outcome))
        { w with servers := w.servers.insert config.serverUrl (server P s req).2 }
  | notServed (repoPath : Path) (method : Method J)
      (result : Except SetupError (Outcome J)) :
      WorldStep toml P w (.call repoPath method) (.call result) w

theorem workspaces_step (w : World) (act : Act J) :
    WorldStep toml P w act (workspaces J toml P B w act).1
      (workspaces J toml P B w act).2 := by
  cases act with
  | createStores repoPath => exact .storesCreated repoPath
  | init repoPath serverUrl uuid =>
      exact .initialized _ _ _ _ _ (initBackend_step toml repoPath serverUrl uuid w)
  | call repoPath method =>
      simp only [workspaces]
      split
      next => exact .notServed ..
      next config hload =>
        simp only [callFrom]
        split
        next => exact .notServed ..
        next req hreq =>
          cases hserver : w.servers config.serverUrl with
          | none =>
              rw [World.connect_of_none hserver]
              exact .notServed ..
          | some s =>
              have hstate : (clients J P B s (method.call config.repoId)).2 =
                  (server P s req).2 := by rw [clients_state, hreq, Option.elim_some]
              rw [World.connect_of_some hserver, hstate]
              exact .served repoPath method _ config s req hload hserver hreq

/-! ## Configurations on the disk -/

theorem store_ne_config (repoPath repoPath' : Path) :
    repoPath ++ ["store"] ≠ repoPath' ++ ["store", "config.toml"] := by
  intro heq
  rw [← concat_config] at heq
  exact absurd (List.append_inj' heq rfl).2 (by decide)

/-- The configuration of a workspace. -/
def configAt (toml : Toml) (disk : Disk) (repoPath : Path) : Option CommitCloudConfig :=
  match disk.node (repoPath ++ ["store", "config.toml"]) with
  | some (.text text) => toml.fromStr text
  | _ => none

/-- What is found under the name of the configuration in a store is one. -/
def ConfigsWritten (toml : Toml) (disk : Disk) : Prop :=
  ∀ repoPath, ∀ dir ∈ storeDirs, ∀ node,
    disk.node (repoPath ++ [dir, "config.toml"]) = some node →
      dir = "store" ∧ ∃ text config, node = .text text ∧ toml.fromStr text = some config

section Read

variable {disk : Disk}

theorem readConfig_configAt (h : ConfigsWritten toml disk) (repoPath : Path) :
    readConfig toml disk (repoPath ++ ["store", "config.toml"]) =
      (configAt toml disk repoPath).elim
        (.error (.file (disk.missing (repoPath ++ ["store", "config.toml"])))) .ok := by
  cases hnode : disk.node (repoPath ++ ["store", "config.toml"]) with
  | none => simp [readConfig, Disk.readToString, configAt, hnode]
  | some node =>
      obtain ⟨-, text, config, rfl, hconfig⟩ := h repoPath "store" (by decide) node hnode
      simp [readConfig, Disk.readToString, configAt, hnode, hconfig]

/-- Every store of a workspace is loaded with the configuration of the workspace. -/
theorem loadFromStore_configAt (h : ConfigsWritten toml disk) (repoPath : Path)
    {dir : String} (hdir : dir ∈ storeDirs) :
    loadFromStore toml disk (repoPath ++ [dir]) =
      (configAt toml disk repoPath).elim
        (.error (.file (disk.missing (repoPath ++ ["store", "config.toml"])))) .ok := by
  rw [← readConfig_configAt h]
  unfold loadFromStore
  rw [concat_config]
  split
  next hexists =>
    obtain ⟨node, hnode⟩ := Option.isSome_iff_exists.mp hexists
    obtain ⟨rfl, -⟩ := h repoPath dir hdir node hnode
    rfl
  next => rw [parent_concat]

theorem configAt_of_loaded (h : ConfigsWritten toml disk) {repoPath : Path} {dir : String}
    (hdir : dir ∈ storeDirs) {config : CommitCloudConfig}
    (hload : loadFromStore toml disk (repoPath ++ [dir]) = .ok config) :
    configAt toml disk repoPath = some config := by
  rw [loadFromStore_configAt h repoPath hdir] at hload
  cases hconfig : configAt toml disk repoPath with
  | none =>
      rw [hconfig] at hload
      cases hload
  | some config' =>
      rw [hconfig] at hload
      exact congrArg some (Except.ok.inj hload)

end Read

section WriteConfig

variable {disk : Disk} {servers : Table String MemoryStore} {repoPath : Path}

theorem writeConfig_eq (htoml : toml.RoundTrips) (h : ConfigsWritten toml disk)
    (hdirectory : disk.node (repoPath ++ ["store"]) = some .directory)
    (config : CommitCloudConfig) :
    ∃ text disk', toml.fromStr text = some config ∧
      disk'.node = disk.node.insert (repoPath ++ ["store", "config.toml"]) (.text text) ∧
      writeConfig toml (repoPath ++ ["store"]) config ⟨disk, servers⟩ =
        (.ok config, ⟨disk', servers⟩) := by
  obtain ⟨text, htext, hparse⟩ := htoml config
  have hname : disk.node (repoPath ++ ["store"] ++ ["config.toml"]) ≠ some .directory := by
    intro hnode
    rw [concat_config] at hnode
    obtain ⟨-, text, -, htext, -⟩ := h repoPath "store" (by decide) _ hnode
    cases htext
  obtain ⟨disk', hwrite⟩ := Disk.write_eq_ok text hdirectory hname
  have hdisk := Disk.node_write hwrite
  rw [concat_config] at hdisk
  exact ⟨text, disk', hparse, hdisk, by simp only [writeConfig, htext, hwrite]⟩

theorem writeConfig_eq_missing (htoml : toml.RoundTrips)
    (hdirectory : disk.node (repoPath ++ ["store"]) ≠ some .directory)
    (config : CommitCloudConfig) :
    writeConfig toml (repoPath ++ ["store"]) config ⟨disk, servers⟩ =
      (.error (.config (.file (disk.missing (repoPath ++ ["store", "config.toml"])))),
        ⟨disk, servers⟩) := by
  obtain ⟨text, htext, -⟩ := htoml config
  simp only [writeConfig, htext, Disk.write_eq_missing hdirectory, concat_config]

end WriteConfig

section Steps

variable {w w' : World} {act : Act J} {result : Result J}

theorem ConfigsWritten.insert {disk disk' : Disk} (h : ConfigsWritten toml disk)
    {repoPath : Path} {config : CommitCloudConfig} {text : String}
    (hdisk : disk'.node =
      disk.node.insert (repoPath ++ ["store", "config.toml"]) (.text text))
    (hparse : toml.fromStr text = some config) : ConfigsWritten toml disk' := by
  intro repoPath' dir hdir node hnode
  rw [hdisk] at hnode
  by_cases hpath : repoPath' ++ [dir, "config.toml"] = repoPath ++ ["store", "config.toml"]
  · rw [hpath, Table.insert_self] at hnode
    obtain ⟨-, hnames⟩ := List.append_inj' hpath rfl
    exact ⟨(List.cons.inj hnames).1, text, config, (Option.some.inj hnode).symm, hparse⟩
  · rw [Table.insert_of_ne hpath] at hnode
    exact h repoPath' dir hdir node hnode

theorem ConfigsWritten.createStores {disk : Disk} (h : ConfigsWritten toml disk)
    {repoPath : Path} (hrepo : "config.toml" ∉ repoPath) :
    ConfigsWritten toml (disk.createStores repoPath) := by
  intro repoPath' dir hdir node hnode
  rw [Disk.node_createStores_of_mem (by decide) hrepo (by simp)] at hnode
  exact h repoPath' dir hdir node hnode

theorem InitStep.configsWritten {repoPath : Path} {serverUrl : String} {uuid : RepoId}
    {result : Except SetupError CommitCloudConfig} (htoml : toml.RoundTrips)
    (hinit : InitStep toml repoPath serverUrl uuid w result w')
    (h : ConfigsWritten toml w.disk) : ConfigsWritten toml w'.disk := by
  cases hinit with
  | unreachable | notWritten => exact h
  | written s text disk hserver htext hdisk =>
      obtain ⟨text', htext', hparse⟩ := htoml ⟨serverUrl, uuid⟩
      obtain rfl := Option.some.inj (htext.symm.trans htext')
      exact h.insert hdisk hparse

theorem WorldStep.configsWritten (htoml : toml.RoundTrips)
    (hstep : WorldStep toml P w act result w') (hact : "config.toml" ∉ act.repoPath)
    (h : ConfigsWritten toml w.disk) : ConfigsWritten toml w'.disk := by
  cases hstep with
  | storesCreated repoPath => exact h.createStores hact
  | initialized repoPath serverUrl uuid result w' hinit =>
      exact hinit.configsWritten htoml h
  | served | notServed => exact h

end Steps

/-! ## Configurations and their repositories -/

/-- Setting the workspace up gave this configuration. -/
inductive Configured : Act J → Result J → Path → CommitCloudConfig → Prop where
  | mk (repoPath : Path) (serverUrl : String) (uuid : RepoId) (config : CommitCloudConfig) :
      Configured (.init repoPath serverUrl uuid) (.init (.ok config)) repoPath config

theorem configAt_congr {disk disk' : Disk} {repoPath : Path}
    (h : ∀ text, disk.node (repoPath ++ ["store", "config.toml"]) = some (.text text) ↔
      disk'.node (repoPath ++ ["store", "config.toml"]) = some (.text text)) :
    configAt toml disk repoPath = configAt toml disk' repoPath := by
  unfold configAt
  split
  next text htext => rw [(h text).mp htext]
  next hnot =>
    split
    next text htext => exact absurd ((h text).mpr htext) (hnot text)
    next => rfl

theorem configAt_createStores (disk : Disk) (repoPath repoPath' : Path) :
    configAt toml (disk.createStores repoPath) repoPath' = configAt toml disk repoPath' :=
  configAt_congr fun _ => Disk.node_createStores_eq_text_iff

section Insert

variable {disk disk' : Disk} {repoPath repoPath' : Path} {node : Node}
  (hdisk : disk'.node = disk.node.insert (repoPath ++ ["store", "config.toml"]) node)

include hdisk

theorem configAt_insert_self {text : String} (hnode : node = .text text) :
    configAt toml disk' repoPath = toml.fromStr text := by
  simp [configAt, hdisk, hnode]

theorem configAt_insert_of_ne (h : repoPath' ≠ repoPath) :
    configAt toml disk' repoPath' = configAt toml disk repoPath' := by
  have hne : repoPath' ++ ["store", "config.toml"] ≠ repoPath ++ ["store", "config.toml"] :=
    fun heq => h (List.append_cancel_right heq)
  simp only [configAt, hdisk, Table.insert_of_ne hne]

end Insert

/-- The server of the configuration knows the repository. -/
def World.Registered (w : World) (config : CommitCloudConfig) : Prop :=
  ∃ s, w.servers config.serverUrl = some s ∧ s.isRepoRegistered config.repoId

theorem World.Registered.insert {w : World} {config : CommitCloudConfig} {serverUrl : String}
    {s s' : MemoryStore} (h : w.Registered config) (hserver : w.servers serverUrl = some s)
    (hkept : ∀ repoId, s.isRepoRegistered repoId → s'.isRepoRegistered repoId) (disk : Disk) :
    World.Registered ⟨disk, w.servers.insert serverUrl s'⟩ config := by
  obtain ⟨s₀, hserver₀, hreg⟩ := h
  by_cases hurl : config.serverUrl = serverUrl
  · rw [hurl, hserver] at hserver₀
    obtain rfl := Option.some.inj hserver₀
    exact ⟨s', hurl ▸ Table.insert_self .., hkept _ hreg⟩
  · exact ⟨s₀, (Table.insert_of_ne hurl ..).trans hserver₀, hreg⟩

section Runs

variable {w w' : World} {act : Act J} {result : Result J} {repoPath : Path}
  {config : CommitCloudConfig}

theorem WorldStep.configAt_of_configured (htoml : toml.RoundTrips)
    (hstep : WorldStep toml P w act result w')
    (hconfigured : Configured act result repoPath config) :
    configAt toml w'.disk repoPath = some config := by
  cases hconfigured with
  | mk repoPath serverUrl uuid config =>
      cases hstep with
      | initialized _ _ _ _ _ hinit =>
          cases hinit with
          | written s text disk hserver htext hdisk =>
              obtain ⟨text', htext', hparse⟩ := htoml ⟨serverUrl, uuid⟩
              obtain rfl := Option.some.inj (htext.symm.trans htext')
              exact (configAt_insert_self hdisk rfl).trans hparse

theorem WorldStep.eq_init_of_configured (hstep : WorldStep toml P w act result w')
    (hconfigured : Configured act result repoPath config) :
    act = .init repoPath config.serverUrl config.repoId := by
  cases hconfigured with
  | mk repoPath serverUrl uuid config =>
      cases hstep with
      | initialized _ _ _ _ _ hinit =>
          cases hinit with
          | written => rfl

theorem WorldStep.configAt (hstep : WorldStep toml P w act result w') (repoPath : Path) :
    configAt toml w'.disk repoPath = configAt toml w.disk repoPath ∨
      ∃ config, Configured act result repoPath config := by
  cases hstep with
  | storesCreated repoPath' => exact .inl (configAt_createStores ..)
  | initialized repoPath' serverUrl uuid result w' hinit =>
      cases hinit with
      | unreachable | notWritten => exact .inl rfl
      | written s text disk hserver htext hdisk =>
          by_cases hrepo : repoPath = repoPath'
          · subst hrepo
            exact .inr ⟨_, .mk ..⟩
          · exact .inl (configAt_insert_of_ne hdisk hrepo)
  | served | notServed => exact .inl rfl

theorem filled_configs (htoml : toml.RoundTrips) :
    Filled (workspaces J toml P B) (fun w => configAt toml w.disk) Configured where
  written w act _ _ hconfigured :=
    (workspaces_step w act).configAt_of_configured htoml hconfigured
  kept w act repoPath := (workspaces_step w act).configAt repoPath

theorem WorldStep.registered (hstep : WorldStep toml P w act result w')
    (h : w.Registered config) : w'.Registered config := by
  have hregisterRepo (s : MemoryStore) (uuid repoId : RepoId)
      (hreg : s.isRepoRegistered repoId) : (s.registerRepo uuid).isRepoRegistered repoId :=
    (server_step P s (.registerRepository {} uuid)).isRepoRegistered hreg
  cases hstep with
  | storesCreated | notServed => exact h
  | initialized repoPath serverUrl uuid result w' hinit =>
      cases hinit with
      | unreachable => exact h
      | notWritten error s hserver => exact h.insert hserver (hregisterRepo s uuid) _
      | written s text disk hserver => exact h.insert hserver (hregisterRepo s uuid) _
  | served repoPath method outcome config' s req hload hserver =>
      exact h.insert hserver (fun _ hreg => (server_step P s req).isRepoRegistered hreg) _

theorem WorldStep.registered_of_configured (hstep : WorldStep toml P w act result w')
    (hconfigured : Configured act result repoPath config) : w'.Registered config := by
  cases hconfigured with
  | mk repoPath serverUrl uuid config =>
      cases hstep with
      | initialized _ _ _ _ _ hinit =>
          cases hinit with
          | written s text disk hserver =>
              exact ⟨_, Table.insert_self .., by
                simp [MemoryStore.isRepoRegistered, MemoryStore.registerRepo]⟩

/-- Stores that find a configuration are all set up with it. -/
theorem cmdCcInit_of_loaded (serverUrl : String) (uuid : RepoId)
    (hload : ∀ dir ∈ storeDirs, loadFromStore toml w.disk (repoPath ++ [dir]) = .ok config)
    (later : List Initializer) (hlater : .backend ∉ later) :
    cmdCcInit toml repoPath serverUrl uuid w later =
      (.ok (later.map fun initializer => (initializer, config)), w) := by
  induction later with
  | nil => rfl
  | cons initializer later ih =>
      rw [List.mem_cons, not_or] at hlater
      have hrun : runInitializer toml repoPath serverUrl uuid w initializer =
          (.ok config, w) := by
        cases initializer with
        | backend => exact absurd rfl hlater.1
        | opStore => simp only [runInitializer, hload "op_store" (by decide)]; rfl
        | opHeadsStore => simp only [runInitializer, hload "op_heads" (by decide)]; rfl
      simp only [cmdCcInit, hrun, ih hlater.2]
      rfl

/-- All stores are set up with the configuration that the backend wrote. -/
theorem cmdCcInit_eq (htoml : toml.RoundTrips) (h : ConfigsWritten toml w.disk)
    {order : List Initializer} (horder : BackendFirst order) (repoPath : Path)
    (serverUrl : String) (uuid : RepoId) :
    (cmdCcInit toml repoPath serverUrl uuid w order).1 =
      (initBackend toml (repoPath ++ ["store"]) serverUrl uuid w).1.map
        fun config => order.map fun initializer => (initializer, config) := by
  obtain ⟨later, rfl, hperm⟩ := horder
  have hlater : .backend ∉ later := by simp [hperm.mem_iff]
  have hinit := initBackend_step toml repoPath serverUrl uuid w
  unfold cmdCcInit runInitializer
  generalize initBackend toml (repoPath ++ ["store"]) serverUrl uuid w = initialized at hinit ⊢
  obtain ⟨result, w'⟩ := initialized
  dsimp only at hinit ⊢
  have hwritten := hinit.configsWritten htoml h
  cases hinit with
  | unreachable | notWritten => rfl
  | written s text disk hserver htext hdisk =>
      obtain ⟨text', htext', hparse⟩ := htoml ⟨serverUrl, uuid⟩
      obtain rfl := Option.some.inj (htext.symm.trans htext')
      have hload (dir : String) (hdir : dir ∈ storeDirs) :
          loadFromStore toml disk (repoPath ++ [dir]) = .ok ⟨serverUrl, uuid⟩ := by
        rw [loadFromStore_configAt hwritten repoPath hdir, configAt_insert_self hdisk rfl,
          hparse, Option.elim_some]
      have hrest := cmdCcInit_of_loaded
        (w := ⟨disk, w.servers.insert serverUrl (s.registerRepo uuid)⟩) serverUrl uuid hload
        later hlater
      simp only [hrest]
      rfl

end Runs

/-! ## Workspaces, by the history -/

/-- No store has a configuration yet. -/
def World.Unconfigured (w : World) : Prop :=
  ∀ repoPath, ∀ dir ∈ storeDirs, w.disk.node (repoPath ++ [dir, "config.toml"]) = none

/--
Wherever a store of a workspace is loaded from, it is given the configuration
that setting up the workspace gave last, and none before that.  The repository
stays known to its server.  If the backend comes first, a workspace that is set
up gets three stores of one repository.
-/
structure ConfiguredByHistory (J : JjLib) (toml : Toml) (P : Platform) (B : JjBackend)
    (w : World) (acts : List (Act J)) : Prop where
  loaded : ∀ repoPath, ∀ dir ∈ storeDirs, ∀ config,
    loadFromStore toml ((workspaces J toml P B).finalState w acts).disk (repoPath ++ [dir]) =
        .ok config ↔
      LastWritten Configured ((workspaces J toml P B).trace w acts) repoPath config
  notLoaded : ∀ repoPath, ∀ dir ∈ storeDirs,
    (∀ config, ¬ Written Configured ((workspaces J toml P B).trace w acts) repoPath config) →
    loadFromStore toml ((workspaces J toml P B).finalState w acts).disk (repoPath ++ [dir]) =
      .error (.file (((workspaces J toml P B).finalState w acts).disk.missing
        (repoPath ++ ["store", "config.toml"])))
  registered : ∀ repoPath config,
    Written Configured ((workspaces J toml P B).trace w acts) repoPath config →
    ((workspaces J toml P B).finalState w acts).Registered config
  together : ∀ order, BackendFirst order → ∀ repoPath serverUrl uuid,
    (cmdCcInit toml repoPath serverUrl uuid ((workspaces J toml P B).finalState w acts)
        order).1 =
      (initBackend toml (repoPath ++ ["store"]) serverUrl uuid
        ((workspaces J toml P B).finalState w acts)).1.map fun config =>
          order.map fun initializer => (initializer, config)

section History

variable {w : World}

theorem World.Unconfigured.configsWritten (h : w.Unconfigured) :
    ConfigsWritten toml w.disk := by
  intro repoPath dir hdir node hnode
  rw [h repoPath dir hdir] at hnode
  cases hnode

theorem World.Unconfigured.configAt (h : w.Unconfigured) (repoPath : Path) :
    configAt toml w.disk repoPath = none := by
  simp only [Client.configAt, h repoPath "store" (by decide)]

theorem configsWritten_finalState (htoml : toml.RoundTrips) (h : ConfigsWritten toml w.disk)
    {acts : List (Act J)} (hpaths : ∀ act ∈ acts, "config.toml" ∉ act.repoPath) :
    ConfigsWritten toml ((workspaces J toml P B).finalState w acts).disk :=
  (workspaces J toml P B).invariant (I := fun w => ConfigsWritten toml w.disk) h
    fun w act hact ih => (workspaces_step w act).configsWritten htoml (hpaths act hact) ih

theorem registered_finalState (acts : List (Act J)) {repoPath : Path}
    {config : CommitCloudConfig}
    (hwritten : Written Configured ((workspaces J toml P B).trace w acts) repoPath config) :
    ((workspaces J toml P B).finalState w acts).Registered config := by
  refine (workspaces J toml P B).invariant_history
    (I := fun past w => ∀ repoPath config, Written Configured past repoPath config →
      w.Registered config)
    ?_ (fun past w act ih repoPath config hwritten => ?_) acts repoPath config hwritten
  · rintro repoPath config ⟨call, hmem, -⟩
    cases hmem
  · rcases Written.append_iff.mp hwritten with hpast | hnow
    · exact (workspaces_step w act).registered (ih repoPath config hpast)
    · exact (workspaces_step w act).registered_of_configured hnow

theorem configuredByHistory (htoml : toml.RoundTrips) (h : w.Unconfigured)
    {acts : List (Act J)} (hpaths : ∀ act ∈ acts, "config.toml" ∉ act.repoPath) :
    ConfiguredByHistory J toml P B w acts := by
  have hwritten := configsWritten_finalState (P := P) (B := B) htoml h.configsWritten hpaths
  have hstored := (filled_configs (J := J) (P := P) (B := B) htoml).stored_iff h.configAt acts
  refine ⟨fun repoPath dir hdir config => ?_, fun repoPath dir hdir hnever => ?_,
    fun repoPath config => registered_finalState acts,
    fun order horder repoPath serverUrl uuid => cmdCcInit_eq htoml hwritten horder ..⟩
  · rw [loadFromStore_configAt hwritten repoPath hdir, ← hstored]
    cases configAt toml ((workspaces J toml P B).finalState w acts).disk repoPath <;> simp
  · have hnone : configAt toml ((workspaces J toml P B).finalState w acts).disk repoPath =
        none :=
      Option.eq_none_iff_forall_ne_some.mpr fun config hsome =>
        hnever config ((hstored repoPath config).mp hsome).written
    rw [loadFromStore_configAt hwritten repoPath hdir, hnone, Option.elim_none]

/-- No workspace, and a server at one address. -/
def oneServer : World where
  disk := .empty
  servers := Table.empty.insert "http://localhost:8080" MemoryStore.new

theorem oneServer_unconfigured : oneServer.Unconfigured :=
  fun repoPath dir _ => if_neg (by simp)

theorem configuredByHistory_oneServer :
    ConfiguredByHistory .reference .reference .reference .reference oneServer
      [.createStores ["repo"], .init ["repo"] "http://localhost:8080" "uuid",
        .call ["repo"] .getOpHeads] :=
  configuredByHistory Toml.reference_roundTrips oneServer_unconfigured (by decide)

end History

end CommitCloud.Client

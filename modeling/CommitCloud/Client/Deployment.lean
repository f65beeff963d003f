import CommitCloud.Client.Refinement
import CommitCloud.Client.Workspaces

/-!
# The deployment, in the terms of jj

What workspaces, their disk and the servers are for: a workspace is set up for
a repository of a cloud, and its calls go there.  There are no files, no loaded
stores and no connections.  A workspace can be set up once the directory of its
store is there.
-/

namespace CommitCloud.Client

open Foundation CommitCloud.Server

variable {J : JjLib}

structure Deployment (J : JjLib) where
  prepared : Path → Bool
  configs : Table Path CommitCloudConfig
  clouds : Table String (Cloud J)

inductive DeploymentAnswer (J : JjLib) where
  | created
  | init (result : Except SetupError CommitCloudConfig)
  | call (result : Except SetupError (CloudAnswer J))

def notConfigured : SetupError := .config (.file .notFound)

/-- The store of a workspace is made, and every store on the way to it. -/
def Deployment.prepare (d : Deployment J) (repoPath : Path) : Deployment J :=
  { d with prepared := fun repoPath' => d.prepared repoPath' ||
      (repoPath' ++ ["store"]).isPrefixOf (repoPath ++ ["store"]) }

theorem Deployment.prepared_prepare_iff {d : Deployment J} {repoPath repoPath' : Path} :
    (d.prepare repoPath).prepared repoPath' ↔
      d.prepared repoPath' ∨ repoPath' ++ ["store"] <+: repoPath ++ ["store"] := by
  simp [prepare, List.isPrefixOf_iff_prefix]

variable (P : Platform) (B : JjBackend)

def deployment : Reactive (Deployment J) (Act J) (DeploymentAnswer J) := fun d act =>
  match act with
  | .createStores repoPath => (.created, d.prepare repoPath)
  | .init repoPath serverUrl uuid =>
      match d.clouds serverUrl with
      | none => (.init (.error .unreachable), d)
      | some c =>
          let clouds := d.clouds.insert serverUrl (c.register uuid)
          if d.prepared repoPath then
            (.init (.ok ⟨serverUrl, uuid⟩), { d with
              configs := d.configs.insert repoPath ⟨serverUrl, uuid⟩
              clouds := clouds })
          else (.init (.error notConfigured), { d with clouds := clouds })
  | .call repoPath method =>
      match d.configs repoPath with
      | none => (.call (.error notConfigured), d)
      | some config =>
          match d.clouds config.serverUrl with
          | none => (.call (.error .unreachable), d)
          | some c =>
              let asked := cloud J P B c (method.call config.repoId).command
              (.call (.ok asked.1),
                { d with clouds := d.clouds.insert config.serverUrl asked.2 })

/-! ## Realization -/

variable {P B} {toml : Toml}

structure Realizes (toml : Toml) (w : World) (d : Deployment J) : Prop where
  files : ∀ path, (w.disk.node path).any Node.isFile → "config.toml" ∈ path
  prepared : ∀ repoPath, w.disk.node (repoPath ++ ["store"]) =
    if d.prepared repoPath then some .directory else none
  written : ConfigsWritten toml w.disk
  configs : ∀ repoPath, configAt toml w.disk repoPath = d.configs repoPath
  clouds : ∀ serverUrl, Option.Rel Represents (w.servers serverUrl) (d.clouds serverUrl)
  online : ∀ repoPath config, d.configs repoPath = some config →
    d.clouds config.serverUrl ≠ none

/-- The workspace is told what the deployment answers. -/
inductive ToldBy : Result J → DeploymentAnswer J → Prop where
  | created : ToldBy .created .created
  | init (result : Except SetupError CommitCloudConfig) : ToldBy (.init result) (.init result)
  | failed (error : SetupError) : ToldBy (.call (.error error)) (.call (.error error))
  | called {outcome : Outcome J} {answer : CloudAnswer J} (h : Tells outcome answer) :
      ToldBy (.call (.ok outcome)) (.call (.ok answer))

variable {w : World} {d : Deployment J}

namespace Realizes

variable (h : Realizes toml w d)

include h

theorem server_none {serverUrl : String} (hcloud : d.clouds serverUrl = none) :
    w.servers serverUrl = none := by
  have hrel := h.clouds serverUrl
  rw [hcloud] at hrel
  cases hserver : w.servers serverUrl with
  | none => rfl
  | some s =>
      rw [hserver] at hrel
      cases hrel

theorem server_some {serverUrl : String} {c : Cloud J} (hcloud : d.clouds serverUrl = some c) :
    ∃ s, w.servers serverUrl = some s ∧ Represents s c := by
  have hrel := h.clouds serverUrl
  rw [hcloud] at hrel
  cases hserver : w.servers serverUrl with
  | none =>
      rw [hserver] at hrel
      cases hrel
  | some s =>
      rw [hserver] at hrel
      obtain ⟨hrepresents⟩ := hrel
      exact ⟨s, rfl, hrepresents⟩

/-- Nothing is in the way where no path names a configuration. -/
theorem not_blocked {path : Path} (hpath : "config.toml" ∉ path) :
    w.disk.blocked path = false := by
  refine Bool.eq_false_iff.mpr fun hblocked => ?_
  obtain ⟨above, habove, hfile⟩ := List.any_eq_true.mp hblocked
  exact hpath (((List.mem_inits ..).mp habove).subset (h.files above hfile))

theorem createStores {repoPath : Path} (hrepo : "config.toml" ∉ repoPath) :
    Realizes toml { w with disk := w.disk.createStores repoPath } (d.prepare repoPath) where
  files path hfile := h.files path (by rwa [Disk.isFile_createStores] at hfile)
  prepared repoPath' := by
    rw [Disk.node_createStores_store]
    by_cases hbelow : repoPath' ++ ["store"] <+: repoPath ++ ["store"]
    · have hpath : "config.toml" ∉ repoPath' ++ ["store"] := by
        intro hmem
        simpa [hrepo] using hbelow.subset hmem
      rw [if_pos hbelow, Disk.orDirectory, h.not_blocked hpath, h.prepared,
        if_pos (Deployment.prepared_prepare_iff.mpr (.inr hbelow))]
      cases d.prepared repoPath' <;> rfl
    · rw [if_neg hbelow]
      simp only [h.prepared, Deployment.prepared_prepare_iff, hbelow, or_false]
  written := h.written.createStores hrepo
  configs repoPath' := (configAt_createStores ..).trans (h.configs repoPath')
  clouds := h.clouds
  online := h.online

/-- A server and its cloud go on together. -/
theorem goOn (serverUrl : String) {s : MemoryStore} {c : Cloud J} (hrepresents : Represents s c) :
    Realizes toml { w with servers := w.servers.insert serverUrl s }
      { d with clouds := d.clouds.insert serverUrl c } where
  files := h.files
  prepared := h.prepared
  written := h.written
  configs := h.configs
  clouds := Table.rel_insert (r := fun _ => Represents) h.clouds hrepresents
  online repoPath config hconfig := by
    dsimp only
    by_cases hurl : config.serverUrl = serverUrl
    · simp [hurl]
    · rw [Table.insert_of_ne hurl]
      exact h.online repoPath config hconfig

/-- The configuration is written for a repository of a cloud that is there. -/
theorem configure {repoPath : Path} {config : CommitCloudConfig} {text : String} {disk : Disk}
    (hdisk : disk.node =
      w.disk.node.insert (repoPath ++ ["store", "config.toml"]) (.text text))
    (hparse : toml.fromStr text = some config) (honline : d.clouds config.serverUrl ≠ none) :
    Realizes toml { w with disk := disk }
      { d with configs := d.configs.insert repoPath config } where
  files path hfile := by
    rw [hdisk] at hfile
    by_cases hpath : path = repoPath ++ ["store", "config.toml"]
    · simp [hpath]
    · rw [Table.insert_of_ne hpath] at hfile
      exact h.files path hfile
  prepared repoPath' := by
    have hne : repoPath' ++ ["store"] ≠ repoPath ++ ["store", "config.toml"] :=
      store_ne_config repoPath' repoPath
    rw [hdisk, Table.insert_of_ne hne, h.prepared]
  written := h.written.insert hdisk hparse
  configs repoPath' := by
    dsimp only
    by_cases hrepo : repoPath' = repoPath
    · subst hrepo
      rw [configAt_insert_self hdisk rfl, hparse, Table.insert_self]
    · rw [configAt_insert_of_ne hdisk hrepo, h.configs, Table.insert_of_ne hrepo]
  clouds := h.clouds
  online repoPath' config' hconfig := by
    dsimp only at hconfig ⊢
    by_cases hrepo : repoPath' = repoPath
    · subst hrepo
      rw [Table.insert_self] at hconfig
      exact Option.some.inj hconfig ▸ honline
    · rw [Table.insert_of_ne hrepo] at hconfig
      exact h.online repoPath' config' hconfig

theorem node_config_eq_none {repoPath : Path} (hconfig : d.configs repoPath = none) :
    w.disk.node (repoPath ++ ["store", "config.toml"]) = none := by
  by_contra hsome
  obtain ⟨node, hnode⟩ := Option.ne_none_iff_exists'.mp hsome
  obtain ⟨-, text, config, rfl, hparse⟩ := h.written repoPath "store" (by decide) node hnode
  have hfound := h.configs repoPath
  rw [configAt, hnode, hconfig] at hfound
  cases hfound.symm.trans hparse

/-- A configuration that is missing is just not there. -/
theorem missing_config {repoPath : Path} (hrepo : "config.toml" ∉ repoPath)
    (hnone : w.disk.node (repoPath ++ ["store", "config.toml"]) = none) :
    w.disk.missing (repoPath ++ ["store", "config.toml"]) = .notFound := by
  have hblocked : w.disk.blocked (repoPath ++ ["store"]) = false :=
    h.not_blocked (by simpa using hrepo)
  rw [← concat_config] at hnone ⊢
  rw [Disk.missing, Disk.blocked_concat, hblocked, hnone]
  rfl

end Realizes

/-! ## One act -/

def Realized (toml : Toml) (done : Result J × World)
    (asked : DeploymentAnswer J × Deployment J) : Prop :=
  ToldBy done.1 asked.1 ∧ Realizes toml done.2 asked.2

theorem realized_init (htoml : toml.RoundTrips) (h : Realizes toml w d) {repoPath : Path}
    (hrepo : "config.toml" ∉ repoPath) (serverUrl : String) (uuid : RepoId) :
    Realized toml (workspaces J toml P B w (.init repoPath serverUrl uuid))
      (deployment P B d (.init repoPath serverUrl uuid)) := by
  simp only [workspaces, deployment]
  cases hcloud : d.clouds serverUrl with
  | none =>
      rw [initBackend_of_none (h.server_none hcloud)]
      exact ⟨.init _, h⟩
  | some c =>
      obtain ⟨s, hserver, hrepresents⟩ := h.server_some hcloud
      have hregistered := h.goOn serverUrl (hrepresents.register uuid)
      have hdirectory := h.prepared repoPath
      rw [initBackend_of_some hserver]
      cases hprepared : d.prepared repoPath with
      | false =>
          simp only [hprepared, Bool.false_eq_true, if_false] at hdirectory ⊢
          have hnone : w.disk.node (repoPath ++ ["store", "config.toml"]) = none := by
            have hclosed := w.disk.closed (repoPath ++ ["store"]) "config.toml"
            rw [hdirectory, concat_config] at hclosed
            by_contra hsome
            cases hclosed hsome
          rw [writeConfig_eq_missing htoml (by simp [hdirectory]), h.missing_config hrepo hnone]
          exact ⟨.init _, hregistered⟩
      | true =>
          simp only [hprepared, if_true] at hdirectory ⊢
          obtain ⟨text, disk, hparse, hdisk, hwritten⟩ := writeConfig_eq htoml
            hregistered.written hdirectory ⟨serverUrl, uuid⟩
          rw [hwritten]
          exact ⟨.init _, hregistered.configure hdisk hparse (by simp)⟩

theorem realized_call (hkeeps : KeepsValues B) (h : Realizes toml w d) {repoPath : Path}
    (hrepo : "config.toml" ∉ repoPath) (method : Method J) :
    Realized toml (workspaces J toml P B w (.call repoPath method))
      (deployment P B d (.call repoPath method)) := by
  simp only [workspaces, deployment, loadFromStore_configAt h.written _ method.storeDir_mem,
    h.configs]
  cases hconfig : d.configs repoPath with
  | none =>
      have hnone := h.node_config_eq_none hconfig
      simp only [Option.elim_none, h.missing_config hrepo hnone]
      exact ⟨.failed _, h⟩
  | some config =>
      obtain ⟨c, hcloud⟩ := Option.ne_none_iff_exists'.mp (h.online repoPath config hconfig)
      obtain ⟨s, hserver, hrepresents⟩ := h.server_some hcloud
      obtain ⟨htells, hnext⟩ := clients_matches_cloud (P := P) hkeeps hrepresents
        (method.call config.repoId)
      simp only [Option.elim_some, hcloud, callFrom]
      cases hreq : (method.call config.repoId).request with
      | none =>
          -- what is not sent is answered alike whatever a server has
          have hanswer : (clients J P B MemoryStore.new (method.call config.repoId)).1 =
              (clients J P B s (method.call config.repoId)).1 :=
            clients_answer (P := P) fun req hsome => by cases hreq.symm.trans hsome
          have hstate : (clients J P B s (method.call config.repoId)).2 = s := by
            rw [clients_state, hreq, Option.elim_none]
          rw [hstate] at hnext
          have hkept := h.goOn config.serverUrl hnext
          rw [Table.insert_eq_self hserver] at hkept
          exact ⟨.called (hanswer ▸ htells), hkept⟩
      | some req =>
          rw [World.connect_of_some hserver]
          exact ⟨.called htells, h.goOn _ hnext⟩

theorem workspaces_simulates (htoml : toml.RoundTrips) (hkeeps : KeepsValues B) :
    SimulatesWithin (workspaces J toml P B) (deployment P B)
      (fun act => "config.toml" ∉ act.repoPath) (Realizes toml) ToldBy := by
  have hrealized (w : World) (d : Deployment J) (act : Act J)
      (hact : "config.toml" ∉ act.repoPath) (h : Realizes toml w d) :
      Realized toml (workspaces J toml P B w act) (deployment P B d act) := by
    cases act with
    | createStores repoPath => exact ⟨.created, h.createStores hact⟩
    | init repoPath serverUrl uuid => exact realized_init htoml h hact serverUrl uuid
    | call repoPath method => exact realized_call hkeeps h hact method
  exact ⟨fun w d act hact h => (hrealized w d act hact h).1,
    fun w d act hact h => (hrealized w d act hact h).2⟩

/-! ## Runs -/

/-- An empty disk, and servers that have just been started. -/
def World.start (online : String → Bool) : World where
  disk := .empty
  servers serverUrl := if online serverUrl then some MemoryStore.new else none

def Deployment.start (online : String → Bool) : Deployment J where
  prepared := fun _ => false
  configs := Table.empty
  clouds serverUrl := if online serverUrl then some Cloud.new else none

theorem unconfigured_start (online : String → Bool) : (World.start online).Unconfigured :=
  fun repoPath dir _ => if_neg (by simp)

theorem realizes_start (toml : Toml) (online : String → Bool) :
    Realizes toml (World.start online) (Deployment.start online : Deployment J) where
  files path hfile := by
    simp only [World.start, Disk.empty] at hfile
    split at hfile <;> cases hfile
  prepared _ := if_neg (by simp)
  written := (unconfigured_start online).configsWritten
  configs := (unconfigured_start online).configAt
  clouds serverUrl := by
    simp only [World.start, Deployment.start]
    split
    · exact .some .new
    · exact .none
  online _ _ hconfig := nomatch hconfig

/--
Workspaces, their disk and the servers behave as the deployment does: every
workspace is told in every act what the deployment answers, and in the end the
disk and the servers still realize it.
-/
theorem workspaces_refine_deployment (htoml : toml.RoundTrips) (hkeeps : KeepsValues B)
    (online : String → Bool) {acts : List (Act J)}
    (hpaths : ∀ act ∈ acts, "config.toml" ∉ act.repoPath) :
    List.Forall₂ (fun done asked => done.1 = asked.1 ∧ ToldBy done.2 asked.2)
        ((workspaces J toml P B).trace (World.start online) acts)
        ((deployment P B).trace (Deployment.start online) acts) ∧
      Realizes toml ((workspaces J toml P B).finalState (World.start online) acts)
        ((deployment P B).finalState (Deployment.start online) acts) :=
  ⟨(workspaces_simulates htoml hkeeps).trace (realizes_start toml online) hpaths,
    (workspaces_simulates htoml hkeeps).finalState (realizes_start toml online) hpaths⟩

/-- A workspace is set up before its directories are there, and after. -/
def earlySetup : List (Act .reference) :=
  [.init ["repo"] "http://localhost:8080" "uuid", .createStores ["repo"],
    .init ["repo"] "http://localhost:8080" "uuid2", .call ["repo"] (.writeFile [1])]

theorem workspaces_refine_deployment_early :
    List.Forall₂ (fun done asked => done.1 = asked.1 ∧ ToldBy done.2 asked.2)
        ((workspaces .reference .reference .reference .reference).trace
          (World.start fun _ => true) earlySetup)
        ((deployment .reference .reference).trace (Deployment.start fun _ => true)
          earlySetup) ∧
      Realizes .reference
        ((workspaces .reference .reference .reference .reference).finalState
          (World.start fun _ => true) earlySetup)
        ((deployment .reference .reference).finalState (Deployment.start fun _ => true)
          earlySetup) :=
  workspaces_refine_deployment Toml.reference_roundTrips reference_keepsValues
    (fun _ => true) (by simp [earlySetup, Act.repoPath])

end CommitCloud.Client

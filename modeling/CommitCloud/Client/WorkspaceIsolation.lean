import CommitCloud.Client.Workspaces
import CommitCloud.Server.Isolation

/-!
# Workspaces do not see each other

Workspaces share the disk and the servers.  As long as a server draws a new
identifier whenever a workspace is set up, what a workspace is answered depends
only on what it did itself, and on whether the directory of its store is there.
-/

namespace CommitCloud.Client

open Foundation CommitCloud.Server

variable {J : JjLib} {toml : Toml} {P : Platform} {B : JjBackend}

/-! ## What a workspace can see -/

/-- Where a workspace is, and the repositories it was set up for at their servers. -/
structure Own where
  repoPath : Path
  avoids : "config.toml" ∉ repoPath
  repositories : Set (String × RepoId)

structure Sight (own : Own) where
  blocked : Bool
  storeDir : Option Node
  config : Option Node
  online : String → Bool
  slices : own.repositories → Option Slice

def sight (own : Own) (w : World) : Sight own where
  blocked := w.disk.blocked own.repoPath
  storeDir := w.disk.node (own.repoPath ++ ["store"])
  config := w.disk.node (own.repoPath ++ ["store", "config.toml"])
  online serverUrl := (w.servers serverUrl).isSome
  slices key := (w.servers key.1.1).map (slice key.1.2)

variable {own : Own} {w w' : World}

/-- A server changed, and no repository of the workspace with it. -/
theorem sight_servers_insert {serverUrl : String} {s s' : MemoryStore}
    (hserver : w.servers serverUrl = some s)
    (hslice : ∀ repoId, (serverUrl, repoId) ∈ own.repositories →
      slice repoId s' = slice repoId s) :
    sight own { w with servers := w.servers.insert serverUrl s' } = sight own w := by
  have honline : (fun url => (w.servers.insert serverUrl s' url).isSome) =
      fun url => (w.servers url).isSome := by
    funext url
    by_cases hurl : url = serverUrl
    · simp [hurl, hserver]
    · rw [Table.insert_of_ne hurl]
  have hslices : (fun key : own.repositories =>
      (w.servers.insert serverUrl s' key.1.1).map (slice key.1.2)) =
        fun key => (w.servers key.1.1).map (slice key.1.2) := by
    funext key
    obtain ⟨⟨url, repoId⟩, hkey⟩ := key
    by_cases hurl : url = serverUrl
    · subst hurl
      simp [hserver, hslice repoId hkey]
    · simp only [Table.insert_of_ne hurl]
  simp only [sight, honline, hslices]

/-- A server changed, and every repository of the workspace in the same way. -/
theorem sight_servers_insert_congr (h : sight own w = sight own w') {serverUrl : String}
    {s s' t t' : MemoryStore} (hserver : w.servers serverUrl = some s)
    (hserver' : w'.servers serverUrl = some s')
    (hslice : ∀ repoId, slice repoId s = slice repoId s' → slice repoId t = slice repoId t') :
    sight own { w with servers := w.servers.insert serverUrl t } =
      sight own { w' with servers := w'.servers.insert serverUrl t' } := by
  obtain ⟨hblocked, hstoreDir, hconfig, honline, hslices⟩ := Sight.mk.inj h
  have honline' : (fun url => (w.servers.insert serverUrl t url).isSome) =
      fun url => (w'.servers.insert serverUrl t' url).isSome := by
    funext url
    by_cases hurl : url = serverUrl
    · simp [hurl]
    · simpa only [Table.insert_of_ne hurl] using congrFun honline url
  have hslices' : (fun key : own.repositories =>
      (w.servers.insert serverUrl t key.1.1).map (slice key.1.2)) =
        fun key => (w'.servers.insert serverUrl t' key.1.1).map (slice key.1.2) := by
    funext key
    obtain ⟨⟨url, repoId⟩, hkey⟩ := key
    by_cases hurl : url = serverUrl
    · subst hurl
      have hsame : (w.servers url).map (slice repoId) = (w'.servers url).map (slice repoId) :=
        congrFun hslices ⟨⟨url, repoId⟩, hkey⟩
      rw [hserver, hserver'] at hsame
      simp [hslice repoId (Option.some.inj hsame)]
    · simpa only [Table.insert_of_ne hurl] using congrFun hslices ⟨⟨url, repoId⟩, hkey⟩
  simp only [sight, hblocked, hstoreDir, hconfig, honline', hslices']

section Configuration

variable {disk : Disk} {repoPath : Path} {node : Node}
  (hdisk : disk.node = w.disk.node.insert (repoPath ++ ["store", "config.toml"]) node)

include hdisk

/-- No configuration is on the way to a workspace. -/
theorem blocked_config_insert : disk.blocked own.repoPath = w.disk.blocked own.repoPath := by
  refine Disk.blocked_congr fun above habove => ?_
  rw [hdisk, Table.insert_of_ne]
  rintro rfl
  exact own.avoids (habove.subset (by simp))

theorem sight_config_insert_of_ne (h : own.repoPath ≠ repoPath) :
    sight own { w with disk := disk } = sight own w := by
  have hstoreDir := store_ne_config own.repoPath repoPath
  have hconfig : own.repoPath ++ ["store", "config.toml"] ≠
      repoPath ++ ["store", "config.toml"] :=
    fun heq => h (List.append_cancel_right heq)
  simp only [sight, blocked_config_insert hdisk, hdisk, Table.insert_of_ne hstoreDir,
    Table.insert_of_ne hconfig]

end Configuration

/-! ## Acts of other workspaces -/

/-- The workspace acts, or its store is made, if only on the way to another one. -/
def Act.Concerns (repoPath : Path) : Act J → Prop
  | .createStores path => repoPath ++ ["store"] <+: path ++ ["store"]
  | .init path _ _ | .call path _ => path = repoPath

instance (repoPath : Path) : DecidablePred (Act.Concerns (J := J) repoPath)
  | .createStores _ => inferInstanceAs (Decidable (_ <+: _))
  | .init .. | .call .. => inferInstanceAs (Decidable (_ = _))

theorem Act.concerns_of_own {act : Act J} {repoPath : Path} (h : act.repoPath = repoPath) :
    act.Concerns repoPath := by
  cases act with
  | createStores path =>
      obtain rfl : path = repoPath := h
      exact List.prefix_rfl
  | _ => exact h

/-- What is drawn for a workspace is its own, and no workspace is at a configuration. -/
structure Own.Allows (own : Own) (act : Act J) : Prop where
  avoids : "config.toml" ∉ act.repoPath
  fresh : ∀ repoPath serverUrl uuid, act = .init repoPath serverUrl uuid →
    ((serverUrl, uuid) ∈ own.repositories ↔ repoPath = own.repoPath)

/-- No other workspace has a configuration for a repository of this one. -/
structure Apart (toml : Toml) (own : Own) (w : World) : Prop where
  written : ConfigsWritten toml w.disk
  config : ∀ repoPath config, configAt toml w.disk repoPath = some config →
    ((config.serverUrl, config.repoId) ∈ own.repositories ↔ repoPath = own.repoPath)

variable {act : Act J} {result : Result J}

theorem WorldStep.apart (htoml : toml.RoundTrips) (hstep : WorldStep toml P w act result w')
    (hallowed : own.Allows act) (h : Apart toml own w) : Apart toml own w' where
  written := hstep.configsWritten htoml hallowed.avoids h.written
  config repoPath config hconfig := by
    rcases hstep.configAt repoPath with hkept | ⟨config', hconfigured⟩
    · exact h.config repoPath config (hkept ▸ hconfig)
    · rw [hstep.configAt_of_configured htoml hconfigured] at hconfig
      obtain rfl := Option.some.inj hconfig
      exact hallowed.fresh _ _ _ (hstep.eq_init_of_configured hconfigured)

theorem WorldStep.sight_of_not (hstep : WorldStep toml P w act result w')
    (hallowed : own.Allows act) (h : Apart toml own w) (hother : ¬ act.Concerns own.repoPath) :
    sight own w' = sight own w := by
  have hserver (s : MemoryStore) (req : Request) (serverUrl : String)
      (hreq : (serverUrl, req.repoId) ∉ own.repositories) (repoId : RepoId)
      (hown : (serverUrl, repoId) ∈ own.repositories) :
      slice repoId (server P s req).2 = slice repoId s :=
    slice_of_ne (server_step P s req) fun heq => hreq (heq ▸ hown)
  cases hstep with
  | notServed => rfl
  | storesCreated repoPath =>
      have hstoreDir := (w.disk.node_createStores_store repoPath own.repoPath).trans
        (if_neg hother)
      have hconfig : (w.disk.createStores repoPath).node
          (own.repoPath ++ ["store", "config.toml"]) =
            w.disk.node (own.repoPath ++ ["store", "config.toml"]) :=
        Disk.node_createStores_of_mem (by decide) hallowed.avoids (by simp) w.disk
      simp only [sight, Disk.blocked_createStores, hstoreDir, hconfig]
  | initialized repoPath serverUrl uuid result w' hinit =>
      have hreq : (serverUrl, uuid) ∉ own.repositories :=
        fun hown => hother ((hallowed.fresh _ _ _ rfl).mp hown)
      have hregister (s : MemoryStore) (hs : w.servers serverUrl = some s) :
          sight own { w with servers := w.servers.insert serverUrl (s.registerRepo uuid) } =
            sight own w :=
        sight_servers_insert hs (hserver s (.registerRepository {} uuid) serverUrl hreq)
      cases hinit with
      | unreachable => rfl
      | notWritten error s hs => exact hregister s hs
      | written s text disk hs htext hdisk =>
          exact (sight_config_insert_of_ne
            (w := { w with servers := w.servers.insert serverUrl (s.registerRepo uuid) })
            hdisk (Ne.symm hother)).trans (hregister s hs)
  | served repoPath method outcome config s req hload hs hreq =>
      refine sight_servers_insert hs (hserver s req config.serverUrl fun hown => hother ?_)
      rw [method.request_repoId hreq] at hown
      exact (h.config repoPath config
        (configAt_of_loaded h.written method.storeDir_mem hload)).mp hown

/-! ## Acts of the workspace -/

theorem server_slice_congr (P : Platform) {s s' : MemoryStore} (req : Request) {repoId : RepoId}
    (h : slice repoId s = slice repoId s') :
    slice repoId (server P s req).2 = slice repoId (server P s' req).2 := by
  by_cases hreq : req.repoId = repoId
  · exact (isolates P repoId).state s s' req hreq h
  · rw [(isolates P repoId).outside s req hreq, (isolates P repoId).outside s' req hreq, h]

theorem servers_none_of_sight (h : sight own w = sight own w') {serverUrl : String}
    (hserver : w.servers serverUrl = none) : w'.servers serverUrl = none := by
  have honline := congrFun (congrArg Sight.online h) serverUrl
  simpa [sight, hserver] using honline.symm

theorem servers_some_of_sight (h : sight own w = sight own w') {serverUrl : String}
    {s : MemoryStore} (hserver : w.servers serverUrl = some s) :
    ∃ s', w'.servers serverUrl = some s' := by
  have honline := congrFun (congrArg Sight.online h) serverUrl
  exact Option.isSome_iff_exists.mp (by simpa [sight, hserver] using honline.symm)

theorem blocked_of_sight (h : sight own w = sight own w') :
    w.disk.blocked (own.repoPath ++ ["store"]) =
      w'.disk.blocked (own.repoPath ++ ["store"]) := by
  obtain ⟨hblocked, hstoreDir, -⟩ := Sight.mk.inj h
  rw [Disk.blocked_concat, Disk.blocked_concat, hblocked, hstoreDir]

/-- Why the configuration is missing. -/
theorem missing_of_sight (h : sight own w = sight own w') :
    w.disk.missing (own.repoPath ++ ["store", "config.toml"]) =
      w'.disk.missing (own.repoPath ++ ["store", "config.toml"]) := by
  have hconfig : w.disk.node (own.repoPath ++ ["store"] ++ ["config.toml"]) =
      w'.disk.node (own.repoPath ++ ["store"] ++ ["config.toml"]) := by
    rw [concat_config]
    exact congrArg Sight.config h
  rw [← concat_config, Disk.missing, Disk.missing,
    w.disk.blocked_concat (own.repoPath ++ ["store"]),
    w'.disk.blocked_concat (own.repoPath ++ ["store"]), blocked_of_sight h, hconfig]

theorem sight_createStores_congr (h : sight own w = sight own w') {repoPath : Path}
    (hrepo : "config.toml" ∉ repoPath) :
    sight own { w with disk := w.disk.createStores repoPath } =
      sight own { w' with disk := w'.disk.createStores repoPath } := by
  obtain ⟨hblocked, hstoreDir, hconfig, honline, hslices⟩ := Sight.mk.inj h
  have hkept (disk : Disk) : (disk.createStores repoPath).node
      (own.repoPath ++ ["store", "config.toml"]) =
        disk.node (own.repoPath ++ ["store", "config.toml"]) :=
    Disk.node_createStores_of_mem (by decide) hrepo (by simp) disk
  simp only [sight, Disk.blocked_createStores, Disk.node_createStores_store,
    Disk.orDirectory, blocked_of_sight h, hkept, hblocked, hstoreDir, hconfig, honline,
    hslices]

theorem sight_config_insert_congr (h : sight own w = sight own w') {disk disk' : Disk}
    {text : String}
    (hdisk : disk.node =
      w.disk.node.insert (own.repoPath ++ ["store", "config.toml"]) (.text text))
    (hdisk' : disk'.node =
      w'.disk.node.insert (own.repoPath ++ ["store", "config.toml"]) (.text text)) :
    sight own { w with disk := disk } = sight own { w' with disk := disk' } := by
  obtain ⟨hblocked, hstoreDir, -, honline, hslices⟩ := Sight.mk.inj h
  have hne := store_ne_config own.repoPath own.repoPath
  simp only [sight, blocked_config_insert hdisk, blocked_config_insert hdisk', hdisk, hdisk',
    Table.insert_of_ne hne, Table.insert_self, hblocked, hstoreDir, honline, hslices]

theorem writeConfig_congr (h : sight own w = sight own w') (config : CommitCloudConfig) :
    (writeConfig toml (own.repoPath ++ ["store"]) config w).1 =
        (writeConfig toml (own.repoPath ++ ["store"]) config w').1 ∧
      sight own (writeConfig toml (own.repoPath ++ ["store"]) config w).2 =
        sight own (writeConfig toml (own.repoPath ++ ["store"]) config w').2 := by
  have hfile : w.disk.node (own.repoPath ++ ["store"] ++ ["config.toml"]) =
      w'.disk.node (own.repoPath ++ ["store"] ++ ["config.toml"]) := by
    rw [concat_config]
    exact congrArg Sight.config h
  have hstoreDir : w.disk.node (own.repoPath ++ ["store"]) =
      w'.disk.node (own.repoPath ++ ["store"]) := congrArg Sight.storeDir h
  unfold writeConfig
  cases toml.toStringPretty config with
  | none => exact ⟨rfl, h⟩
  | some text =>
      by_cases hname : w.disk.node (own.repoPath ++ ["store"] ++ ["config.toml"]) =
        some .directory
      · simp only [Disk.write_eq_isADirectory hname,
          Disk.write_eq_isADirectory (hfile.symm.trans hname)]
        exact ⟨trivial, h⟩
      by_cases hdir : w.disk.node (own.repoPath ++ ["store"]) = some .directory
      · obtain ⟨disk, hwrite⟩ := Disk.write_eq_ok text hdir hname
        obtain ⟨disk', hwrite'⟩ := Disk.write_eq_ok text
          (hstoreDir.symm.trans hdir) (hfile ▸ hname)
        have hdisk := Disk.node_write hwrite
        have hdisk' := Disk.node_write hwrite'
        rw [concat_config] at hdisk hdisk'
        simp only [hwrite, hwrite']
        exact ⟨trivial, sight_config_insert_congr h hdisk hdisk'⟩
      · simp only [Disk.write_eq_missing hdir, Disk.write_eq_missing (hstoreDir ▸ hdir),
          concat_config, missing_of_sight h]
        exact ⟨trivial, h⟩

theorem initBackend_congr (toml : Toml) (P : Platform) (h : sight own w = sight own w')
    (serverUrl : String) (uuid : RepoId) :
    (initBackend toml (own.repoPath ++ ["store"]) serverUrl uuid w).1 =
        (initBackend toml (own.repoPath ++ ["store"]) serverUrl uuid w').1 ∧
      sight own (initBackend toml (own.repoPath ++ ["store"]) serverUrl uuid w).2 =
        sight own (initBackend toml (own.repoPath ++ ["store"]) serverUrl uuid w').2 := by
  cases hs : w.servers serverUrl with
  | none =>
      rw [initBackend_of_none hs, initBackend_of_none (servers_none_of_sight h hs)]
      exact ⟨rfl, h⟩
  | some s =>
      obtain ⟨s', hs'⟩ := servers_some_of_sight h hs
      rw [initBackend_of_some hs, initBackend_of_some hs']
      exact writeConfig_congr (sight_servers_insert_congr h hs hs'
        fun repoId => server_slice_congr P (.registerRepository {} uuid)) _

theorem callFrom_congr (h : sight own w = sight own w') {config : CommitCloudConfig}
    (hown : (config.serverUrl, config.repoId) ∈ own.repositories) (method : Method J) :
    (callFrom J P B w config method).1 = (callFrom J P B w' config method).1 ∧
      sight own (callFrom J P B w config method).2 =
        sight own (callFrom J P B w' config method).2 := by
  unfold callFrom
  cases hreq : (method.call config.repoId).request with
  | none => exact ⟨rfl, h⟩
  | some req =>
      cases hs : w.servers config.serverUrl with
      | none =>
          rw [World.connect_of_none hs, World.connect_of_none (servers_none_of_sight h hs)]
          exact ⟨rfl, h⟩
      | some s =>
          obtain ⟨s', hs'⟩ := servers_some_of_sight h hs
          have hslice : slice config.repoId s = slice config.repoId s' := by
            have hsame := congrFun (congrArg Sight.slices h)
              ⟨(config.serverUrl, config.repoId), hown⟩
            simpa [sight, hs, hs'] using hsame
          have hanswer : (clients J P B s (method.call config.repoId)).1 =
              (clients J P B s' (method.call config.repoId)).1 := by
            refine clients_answer (P := P) fun req' hreq' => ?_
            exact (isolates P config.repoId).answer s s' req' (method.request_repoId hreq')
              hslice
          rw [World.connect_of_some hs, World.connect_of_some hs']
          refine ⟨congrArg Except.ok hanswer, ?_⟩
          simp only [clients_state, hreq, Option.elim_some]
          exact sight_servers_insert_congr h hs hs' fun repoId => server_slice_congr P req

theorem workspaces_congr (hw : Apart toml own w) (hw' : Apart toml own w')
    (hallowed : own.Allows act) (hact : act.Concerns own.repoPath)
    (h : sight own w = sight own w') :
    (workspaces J toml P B w act).1 = (workspaces J toml P B w' act).1 ∧
      sight own (workspaces J toml P B w act).2 =
        sight own (workspaces J toml P B w' act).2 := by
  cases act with
  | createStores repoPath => exact ⟨rfl, sight_createStores_congr h hallowed.avoids⟩
  | init repoPath serverUrl uuid =>
      obtain rfl : repoPath = own.repoPath := hact
      obtain ⟨hanswer, hstate⟩ := initBackend_congr toml P h serverUrl uuid
      exact ⟨congrArg Result.init hanswer, hstate⟩
  | call repoPath method =>
      obtain rfl : repoPath = own.repoPath := hact
      have hconfig : configAt toml w.disk own.repoPath = configAt toml w'.disk own.repoPath := by
        have hnode : w.disk.node (own.repoPath ++ ["store", "config.toml"]) =
            w'.disk.node (own.repoPath ++ ["store", "config.toml"]) := congrArg Sight.config h
        simp only [configAt, hnode]
      simp only [workspaces, loadFromStore_configAt hw.written _ method.storeDir_mem,
        loadFromStore_configAt hw'.written _ method.storeDir_mem, hconfig, missing_of_sight h]
      cases hloaded : configAt toml w'.disk own.repoPath with
      | none => exact ⟨rfl, h⟩
      | some config =>
          have hown := (hw'.config own.repoPath config hloaded).mpr rfl
          obtain ⟨hanswer, hstate⟩ := callFrom_congr (P := P) (B := B) h hown method
          exact ⟨congrArg Result.call hanswer, hstate⟩

/-! ## Isolation -/

theorem isolatesWithin (htoml : toml.RoundTrips) (own : Own) :
    IsolatesWithin (workspaces J toml P B) (Apart toml own) own.Allows
      (Act.Concerns own.repoPath) (sight own) where
  answer _ _ _ hw hw' hallowed hact h := (workspaces_congr hw hw' hallowed hact h).1
  state _ _ _ hw hw' hallowed hact h := (workspaces_congr hw hw' hallowed hact h).2
  outside w act hw hallowed hact := (workspaces_step w act).sight_of_not hallowed hw hact
  preserved w act hw hallowed := (workspaces_step w act).apart htoml hallowed hw

/-- The repositories that the acts set the workspace up for. -/
def ownOf (acts : List (Act J)) (repoPath : Path) (havoids : "config.toml" ∉ repoPath) :
    Own where
  repoPath := repoPath
  avoids := havoids
  repositories := { key | .init repoPath key.1 key.2 ∈ acts }

/--
Leaving out any acts that do not concern a workspace changes no answer to it, if
no server drew for another one what it drew for this one.
-/
theorem workspaces_isolated (htoml : toml.RoundTrips) (hw : w.Unconfigured) (repoPath : Path)
    {acts acts' : List (Act J)} (hpaths : ∀ act ∈ acts, "config.toml" ∉ act.repoPath)
    (hfresh : ∀ repoPath' serverUrl uuid, .init repoPath serverUrl uuid ∈ acts →
      .init repoPath' serverUrl uuid ∈ acts → repoPath' = repoPath)
    (h : LeavesOut (Act.Concerns repoPath) acts acts') :
    ((workspaces J toml P B).trace w acts).filter
        (fun entry => entry.1.repoPath = repoPath) =
      ((workspaces J toml P B).trace w acts').filter
        fun entry => entry.1.repoPath = repoPath := by
  by_cases hrepo : "config.toml" ∈ repoPath
  · -- nobody is there
    have hnone (rs : List (Act J)) (hrs : rs ⊆ acts) :
        ((workspaces J toml P B).trace w rs).filter
          (fun entry => entry.1.repoPath = repoPath) = [] := by
      refine List.filter_eq_nil_iff.mpr fun entry hmem => ?_
      obtain ⟨before, after, rfl, -⟩ := (workspaces J toml P B).mem_trace_iff.mp hmem
      have hother : entry.1.repoPath ≠ repoPath := by
        rintro rfl
        exact hpaths entry.1 (hrs (by simp)) hrepo
      simpa using hother
    rw [hnone acts (List.Subset.refl _), hnone acts' h.sublist.subset]
  have hapart : Apart toml (ownOf acts repoPath hrepo) w :=
    ⟨hw.configsWritten, fun repoPath' config hconfig => by
      rw [hw.configAt] at hconfig
      cases hconfig⟩
  refine (isolatesWithin htoml (ownOf acts repoPath hrepo)).trace_eq_of_inside
    (fun act => Act.concerns_of_own) h (fun act hact => ⟨hpaths act hact, ?_⟩) hapart hapart rfl
  rintro repoPath' serverUrl uuid rfl
  constructor
  · exact fun hown => hfresh repoPath' serverUrl uuid hown hact
  · rintro rfl
    exact hact

theorem workspaces_isolated_two :
    ((workspaces .reference .reference .reference .reference).trace oneServer
        [.createStores ["repo"], .createStores ["other"],
          .init ["repo"] "http://localhost:8080" "uuid",
          .init ["other"] "http://localhost:8080" "uuid2",
          .call ["other"] (.writeFile [1]), .call ["repo"] .getOpHeads]).filter
        (fun entry => entry.1.repoPath = ["repo"]) =
      ((workspaces .reference .reference .reference .reference).trace oneServer
        [.createStores ["repo"], .init ["repo"] "http://localhost:8080" "uuid",
          .call ["repo"] .getOpHeads]).filter
        fun entry => entry.1.repoPath = ["repo"] :=
  workspaces_isolated Toml.reference_roundTrips oneServer_unconfigured ["repo"] (by decide)
    (by simp_all)
    (.keep _ (.drop (by decide) (.keep _ (.drop (by decide) (.drop (by decide)
      (.keep _ .nil))))))

end CommitCloud.Client

import CommitCloud.Foundation.Tables
import Mathlib.Data.List.Infix

/-!
# The disk

What `std::fs` does with the files of a workspace.  Whatever is on the disk is in
a directory, so a path that leads through a file leads nowhere.  Directories are
made by the environment alone.
-/

namespace CommitCloud.Client

open Foundation

/-- A path by its components from the root, none of them `.` or `..`. -/
abbrev Path := List String

/-- `Path::parent` -/
def parent : Path → Option Path
  | [] => none
  | path => some path.dropLast

theorem parent_concat (path : Path) (name : String) :
    parent (path ++ [name]) = some path := by
  cases path with
  | nil => rfl
  | cons first path => exact congrArg some List.dropLast_concat

inductive Node where
  | directory
  | text (contents : String)
  /-- A file that is not UTF-8. -/
  | binary
  deriving DecidableEq

def Node.isFile : Node → Bool
  | directory => false
  | _ => true

inductive FileError where
  | notFound
  | isADirectory
  | notADirectory
  | invalidData
  deriving DecidableEq

structure Disk where
  node : Table Path Node
  root : node [] = some .directory
  closed : ∀ dir name, node (dir ++ [name]) ≠ none → node dir = some .directory

namespace Disk

/-- Nothing but the root. -/
def empty : Disk where
  node path := if path = [] then some .directory else none
  root := rfl
  closed dir name h := absurd (if_neg (by simp)) h

/-- A file is on the way. -/
def blocked (disk : Disk) (path : Path) : Bool :=
  path.inits.any fun above => (disk.node above).any Node.isFile

/-- Why there is nothing at a path. -/
def missing (disk : Disk) (path : Path) : FileError :=
  if disk.blocked path then .notADirectory else .notFound

/-- `Path::exists` -/
def pathExists (disk : Disk) (path : Path) : Bool := (disk.node path).isSome

/-- `fs::read_to_string` -/
def readToString (disk : Disk) (path : Path) : Except FileError String :=
  match disk.node path with
  | some (.text contents) => .ok contents
  | some .directory => .error .isADirectory
  | some .binary => .error .invalidData
  | none => .error (disk.missing path)

/-- Something new in a directory, or in the place of a file there. -/
def put (disk : Disk) (dir : Path) (name : String) (node : Node)
    (hdir : disk.node dir = some .directory)
    (hname : disk.node (dir ++ [name]) ≠ some .directory) : Disk where
  node := disk.node.insert (dir ++ [name]) node
  root := (Table.insert_of_ne (by simp) ..).trans disk.root
  closed above below h := by
    by_cases hpath : above ++ [below] = dir ++ [name]
    · obtain ⟨rfl, -⟩ := List.append_inj' hpath rfl
      exact (Table.insert_of_ne (by simp) ..).trans hdir
    · rw [Table.insert_of_ne hpath] at h
      have habove := disk.closed above below h
      refine (Table.insert_of_ne ?_ ..).trans habove
      rintro rfl
      exact hname habove

/-- `fs::write` creates the file, but not the directory it is in. -/
def write (disk : Disk) (dir : Path) (name contents : String) : Except FileError Disk :=
  if hname : disk.node (dir ++ [name]) = some .directory then .error .isADirectory
  else if hdir : disk.node dir = some .directory then
    .ok (disk.put dir name (.text contents) hdir hname)
  else .error (disk.missing (dir ++ [name]))

def createDir (disk : Disk) (dir : Path) (name : String) : Disk :=
  if h : disk.node dir = some .directory ∧ disk.node (dir ++ [name]) = none then
    disk.put dir name .directory h.1 (by simp [h.2])
  else disk

/-- A directory and those above it, as far as no file is in the way. -/
def createDirAll (disk : Disk) (dir : Path) : Path → Disk
  | [] => disk
  | name :: below => (disk.createDir dir name).createDirAll (dir ++ [name]) below

end Disk

/-! ## Files on the way -/

namespace Disk

variable {disk : Disk} {dir path : Path} {name : String}

theorem blocked_concat (disk : Disk) (dir : Path) (name : String) :
    disk.blocked (dir ++ [name]) =
      (disk.blocked dir || (disk.node (dir ++ [name])).any Node.isFile) := by
  simp [blocked, List.inits_append]

theorem blocked_congr {disk' : Disk}
    (h : ∀ above, above <+: path → (disk.node above).any Node.isFile =
      (disk'.node above).any Node.isFile) : disk.blocked path = disk'.blocked path := by
  induction path using List.reverseRecOn with
  | nil => simp [blocked, disk.root, disk'.root]
  | append_singleton dir name ih =>
      rw [blocked_concat, blocked_concat, h _ List.prefix_rfl,
        ih fun above habove => h above (habove.trans (List.prefix_append ..))]

theorem not_blocked_of_directory (h : disk.node path = some .directory) :
    disk.blocked path = false := by
  induction path using List.reverseRecOn with
  | nil => simp [blocked, h, Node.isFile]
  | append_singleton dir name ih =>
      have hdir := disk.closed dir name (by simp [h])
      rw [blocked_concat, ih hdir, h]
      rfl

theorem blocked_of_file {node : Node} (hnode : disk.node path = some node)
    (hfile : node.isFile) : disk.blocked path := by
  refine List.any_eq_true.mpr ⟨path, (List.mem_inits ..).mpr List.prefix_rfl, ?_⟩
  rw [hnode]
  exact hfile

end Disk

/-! ## What the operations do -/

namespace Disk

section Put

variable {disk disk' : Disk} {dir path : Path} {name contents : String}

theorem node_write (h : disk.write dir name contents = .ok disk') :
    disk'.node = disk.node.insert (dir ++ [name]) (.text contents) := by
  unfold write at h
  split_ifs at h
  obtain rfl := Except.ok.inj h
  rfl

theorem write_eq_isADirectory (hname : disk.node (dir ++ [name]) = some .directory) :
    disk.write dir name contents = .error .isADirectory :=
  dif_pos hname

theorem write_eq_ok (contents : String) (hdir : disk.node dir = some .directory)
    (hname : disk.node (dir ++ [name]) ≠ some .directory) :
    ∃ disk', disk.write dir name contents = .ok disk' :=
  ⟨_, by rw [write, dif_neg hname, dif_pos hdir]⟩

theorem write_eq_missing (hdir : disk.node dir ≠ some .directory) :
    disk.write dir name contents = .error (disk.missing (dir ++ [name])) := by
  have hname : disk.node (dir ++ [name]) ≠ some .directory := by
    intro h
    exact hdir (disk.closed dir name (by simp [h]))
  rw [write, dif_neg hname, dif_neg hdir]

theorem node_createDir_of_ne (h : path ≠ dir ++ [name]) (disk : Disk) :
    (disk.createDir dir name).node path = disk.node path := by
  unfold createDir
  split
  · exact Table.insert_of_ne h ..
  · rfl

theorem node_createDir_self (disk : Disk) (dir : Path) (name : String) :
    (disk.createDir dir name).node (dir ++ [name]) = (disk.node (dir ++ [name])).or
      (if disk.node dir = some .directory then some .directory else none) := by
  unfold createDir
  split
  next h => simp [put, h]
  next h =>
    rw [not_and] at h
    split
    next hdir =>
      obtain ⟨node, hnode⟩ := Option.ne_none_iff_exists'.mp (h hdir)
      rw [hnode, Option.some_or]
    next => rw [Option.or_none]

end Put

/-- What is at a path after an attempt to make a directory of it. -/
def orDirectory (disk : Disk) (path : Path) : Option Node :=
  (disk.node path).or (if disk.blocked path then none else some .directory)

section CreateDirAll

variable {disk : Disk} {dir path : Path}

theorem orDirectory_eq_directory_iff :
    disk.orDirectory path = some .directory ↔ disk.blocked path = false := by
  cases hnode : disk.node path with
  | none => cases hblocked : disk.blocked path <;> simp [orDirectory, hnode, hblocked]
  | some node =>
      rw [orDirectory, hnode, Option.some_or]
      cases hfile : node.isFile with
      | false =>
          have hdirectory : node = .directory := by
            cases node with
            | directory => rfl
            | _ => cases hfile
          rw [hdirectory] at hnode ⊢
          simp [not_blocked_of_directory hnode]
      | true =>
          rw [blocked_of_file hnode hfile]
          simp only [Option.some.injEq, Bool.true_eq_false, iff_false]
          rintro rfl
          cases hfile

theorem createDirAll_append (disk : Disk) (dir above below : Path) :
    disk.createDirAll dir (above ++ below) =
      (disk.createDirAll dir above).createDirAll (dir ++ above) below := by
  induction above generalizing disk dir with
  | nil => rw [List.nil_append, List.append_nil, createDirAll]
  | cons name above ih =>
      rw [List.cons_append, createDirAll, createDirAll, ih, List.append_assoc]
      rfl

/-- Directories are made below the first one only. -/
theorem node_createDirAll_of_not (below : Path)
    (h : ∀ made, made <+: below → made ≠ [] → path ≠ dir ++ made) (disk : Disk) :
    (disk.createDirAll dir below).node path = disk.node path := by
  induction below generalizing disk dir with
  | nil => rfl
  | cons name below ih =>
      have hlater (made : Path) (hmade : made <+: below) (hne : made ≠ []) :
          path ≠ (dir ++ [name]) ++ made := by
        rw [List.append_assoc]
        exact h (name :: made) (List.cons_prefix_cons.mpr ⟨rfl, hmade⟩) (by simp)
      rw [createDirAll, ih hlater]
      exact node_createDir_of_ne (h [name] (List.prefix_append [name] below) (by simp)) disk

theorem node_createDirAll_self (disk : Disk) (path : Path) :
    (disk.createDirAll [] path).node path = disk.orDirectory path := by
  induction path using List.reverseRecOn with
  | nil => rw [createDirAll, orDirectory, disk.root, Option.some_or]
  | append_singleton dir name ih =>
      have hbelow : (disk.createDirAll [] dir).node (dir ++ [name]) =
          disk.node (dir ++ [name]) := by
        refine node_createDirAll_of_not dir (fun made hmade _ heq => ?_) disk
        obtain rfl : dir ++ [name] = made := heq
        exact absurd hmade.length_le (by simp)
      rw [createDirAll_append, List.nil_append, createDirAll, createDirAll,
        node_createDir_self, hbelow, ih]
      simp only [orDirectory_eq_directory_iff]
      cases hnode : disk.node (dir ++ [name]) with
      | none => cases hblocked : disk.blocked dir <;>
          simp [orDirectory, blocked_concat, hnode, hblocked]
      | some node => rw [orDirectory, hnode, Option.some_or, Option.some_or]

theorem node_createDirAll (disk : Disk) (path path' : Path) :
    (disk.createDirAll [] path).node path' =
      if path' <+: path then disk.orDirectory path' else disk.node path' := by
  split
  next h =>
    obtain ⟨below, rfl⟩ := h
    rw [createDirAll_append, node_createDirAll_of_not below ?_, node_createDirAll_self]
    rintro made - hne heq
    exact hne (by simpa using heq)
  next h =>
    refine node_createDirAll_of_not path (fun made hmade _ heq => h ?_) disk
    obtain rfl : path' = made := heq
    exact hmade

theorem isFile_orDirectory (disk : Disk) (path : Path) :
    (disk.orDirectory path).any Node.isFile = (disk.node path).any Node.isFile := by
  rw [orDirectory]
  cases disk.node path with
  | none => split <;> rfl
  | some node => rfl

theorem blocked_createDirAll (disk : Disk) (path path' : Path) :
    (disk.createDirAll [] path).blocked path' = disk.blocked path' := by
  refine blocked_congr fun above _ => ?_
  rw [node_createDirAll]
  split
  · exact isFile_orDirectory disk above
  · rfl

end CreateDirAll

end Disk

/-! ## The directories of a workspace -/

def storeDirs : List String := ["store", "op_store", "op_heads"]

namespace Disk

/--
An act of the environment and not of this code: the workspace engine of jj makes
the directories of the stores, and whoever runs it what is above them.
-/
def createStores (disk : Disk) (repoPath : Path) : Disk :=
  storeDirs.foldl (fun disk dir => disk.createDirAll [] (repoPath ++ [dir])) disk

variable {repoPath path : Path}

theorem node_createStores (disk : Disk) (repoPath path : Path) :
    (disk.createStores repoPath).node path =
      if ∃ dir ∈ storeDirs, path <+: repoPath ++ [dir] then disk.orDirectory path
      else disk.node path := by
  have hdirs (dirs : List String) (disk : Disk) :
      (dirs.foldl (fun disk dir => disk.createDirAll [] (repoPath ++ [dir])) disk).node path =
        if ∃ dir ∈ dirs, path <+: repoPath ++ [dir] then disk.orDirectory path
        else disk.node path := by
    induction dirs generalizing disk with
    | nil => simp
    | cons dir dirs ih =>
        rw [List.foldl_cons, ih, orDirectory, blocked_createDirAll, node_createDirAll]
        by_cases hfirst : path <+: repoPath ++ [dir]
        · by_cases hrest : ∃ dir ∈ dirs, path <+: repoPath ++ [dir]
          · simp only [hfirst, hrest, if_true, List.exists_mem_cons_iff, true_or]
            rw [orDirectory, Option.or_assoc, Option.or_self]
          · simp only [hfirst, hrest, if_true, if_false, List.exists_mem_cons_iff, true_or]
        · simp only [hfirst, if_false, List.exists_mem_cons_iff, false_or]
          rfl
  exact hdirs storeDirs disk

theorem isFile_createStores (disk : Disk) (repoPath path : Path) :
    ((disk.createStores repoPath).node path).any Node.isFile =
      (disk.node path).any Node.isFile := by
  rw [node_createStores]
  split
  · exact isFile_orDirectory disk path
  · rfl

theorem blocked_createStores (disk : Disk) (repoPath path : Path) :
    (disk.createStores repoPath).blocked path = disk.blocked path :=
  blocked_congr fun above _ => isFile_createStores disk repoPath above

theorem node_createStores_of_mem {name : String} (hname : name ∉ storeDirs)
    (hrepo : name ∉ repoPath) (hpath : name ∈ path) (disk : Disk) :
    (disk.createStores repoPath).node path = disk.node path := by
  rw [node_createStores, if_neg]
  rintro ⟨dir, hdir, hbelow⟩
  rcases List.mem_append.mp (hbelow.subset hpath) with hmem | hmem
  · exact hrepo hmem
  · exact hname (List.mem_singleton.mp hmem ▸ hdir)

/-- No text comes or goes with a directory. -/
theorem node_createStores_eq_text_iff {disk : Disk} {contents : String} :
    (disk.createStores repoPath).node path = some (.text contents) ↔
      disk.node path = some (.text contents) := by
  rw [node_createStores]
  split
  · rw [orDirectory]
    cases disk.node path with
    | none => split <;> simp
    | some node => rfl
  · rfl

/-- A store is made with its workspace, or with a workspace inside it. -/
theorem node_createStores_store (disk : Disk) (repoPath repoPath' : Path) :
    (disk.createStores repoPath).node (repoPath' ++ ["store"]) =
      if repoPath' ++ ["store"] <+: repoPath ++ ["store"] then
        disk.orDirectory (repoPath' ++ ["store"])
      else disk.node (repoPath' ++ ["store"]) := by
  have hiff : (∃ dir ∈ storeDirs, repoPath' ++ ["store"] <+: repoPath ++ [dir]) ↔
      repoPath' ++ ["store"] <+: repoPath ++ ["store"] := by
    constructor
    · rintro ⟨dir, -, hbelow⟩
      rcases List.prefix_concat_iff.mp hbelow with heq | hbelow
      · obtain ⟨rfl, -⟩ := List.append_inj' heq rfl
        exact List.prefix_rfl
      · exact hbelow.trans (List.prefix_append ..)
    · exact fun hbelow => ⟨"store", by simp [storeDirs], hbelow⟩
  rw [node_createStores]
  simp only [hiff]

end Disk

end CommitCloud.Client

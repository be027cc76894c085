import Coral.Graph.Store
import Coral.Node.Storage

/-! `PerAgentGitStorage`: the files of all agents on one disk, and one git repository for
each agent, which has the agent's own directory for its working tree. -/

namespace Coral
open Coral.Library

/-- What there is at a path below the root of a repository. -/
abbrev WorkTree := List Name → Option (Entry Content)

/-- What git leaves out of `add_all`: the files that a `.gitignore` of the working tree
matches, and the directories that are repositories of their own. -/
structure GitRules where
  ignored : WorkTree → List Name → Bool
  nested : WorkTree → List Name → Bool

/-- The path is not ignored, and no directory above it is another repository. -/
def GitRules.admits (rules : GitRules) (work : WorkTree) (path : List Name) : Bool :=
  !rules.ignored work path && path.dropLast.inits.all fun dir => dir.isEmpty || !rules.nested work dir

structure Commit where
  message : String
  tree : List (List Name × BlobSha)
deriving DecidableEq

/-- The index, the blobs of the object database, and the commits from `HEAD` on back. -/
structure Repo where
  index : AList fun _ : List Name => BlobSha
  objects : AList fun _ : BlobSha => Content
  commits : List Commit

namespace Repo

/-- `Repository::init`. -/
def init : Repo := ⟨∅, ∅, []⟩

/-- The blob goes to the object database, unless one of its address is there. -/
def store (repo : Repo) (sha : BlobSha) (content : Content) : Repo :=
  if (repo.objects.lookup sha).isSome then repo else { repo with objects := repo.objects.insert sha content }

def add (ofBytes : Content → BlobSha) (repo : Repo) (path : List Name) (content : Content) : Repo :=
  { repo.store (ofBytes content) content with index := repo.index.insert path (ofBytes content) }

def addFiles (ofBytes : Content → BlobSha) (repo : Repo) (files : List (List Name × Content)) : Repo :=
  files.foldr (fun (path, content) repo => repo.add ofBytes path content) repo

section Adding

variable {ofBytes : Content → BlobSha} {repo : Repo} {files : List (List Name × Content)} {path : List Name}

theorem index_add (content : Content) (other : List Name) : (repo.add ofBytes path content).index.lookup other =
    if other = path then some (ofBytes content) else repo.index.lookup other := by
  change (repo.index.insert path (ofBytes content)).lookup other = _
  by_cases same : other = path
  · rw [if_pos same, same, AList.lookup_insert]
  · rw [if_neg same, AList.lookup_insert_ne same]

theorem index_addFiles_absent (absent : ∀ content, (path, content) ∉ files) :
    (repo.addFiles ofBytes files).index.lookup path = repo.index.lookup path := by
  induction files with
  | nil => rfl
  | cons file files ih =>
    have other : path ≠ file.1 := fun same => absent file.2 (same ▸ List.mem_cons_self)
    exact (index_add _ _).trans ((if_neg other).trans (ih fun content member => absent content (List.mem_cons_of_mem _ member)))

theorem index_addFiles {content : Content} (member : (path, content) ∈ files)
    (single : ∀ other, (path, other) ∈ files → other = content) :
    (repo.addFiles ofBytes files).index.lookup path = some (ofBytes content) := by
  induction files with
  | nil => cases member
  | cons file files ih =>
    refine (index_add _ _).trans ?_
    by_cases same : path = file.1
    · have written : file.2 = content := single file.2 (same ▸ List.mem_cons_self)
      rw [if_pos same, written]
    · rw [if_neg same]
      have later : (path, content) ∈ files := by
        rcases List.mem_cons.mp member with here | later
        · exact (same (congrArg Prod.fst here)).elim
        · exact later
      exact ih later fun other among => single other (List.mem_cons_of_mem _ among)

end Adding

section Objects

variable {ofBytes : Content → BlobSha} {repo middle after : Repo}

/-- Every blob is under its own address. -/
def Addressed (ofBytes : Content → BlobSha) (repo : Repo) : Prop :=
  ∀ sha content, repo.objects.lookup sha = some content → ofBytes content = sha

/-- No blob is lost, and the new ones are under their addresses. -/
structure Grows (ofBytes : Content → BlobSha) (repo after : Repo) : Prop where
  kept : ∀ sha content, repo.objects.lookup sha = some content → after.objects.lookup sha = some content
  addressed : repo.Addressed ofBytes → after.Addressed ofBytes

theorem Grows.refl (repo : Repo) : repo.Grows ofBytes repo := ⟨fun _ _ found => found, fun held => held⟩

theorem Grows.of_objects (same : after.objects = repo.objects) : repo.Grows ofBytes after where
  kept sha content found := by rw [same, found]
  addressed held sha content found := held sha content (by rw [← same, found])

theorem Grows.trans (first : repo.Grows ofBytes middle) (second : middle.Grows ofBytes after) : repo.Grows ofBytes after where
  kept sha content found := second.kept sha content (first.kept sha content found)
  addressed held := second.addressed (first.addressed held)

/-- What is stored already stays, whatever has its address. -/
theorem objects_add (path : List Name) (content : Content) (sha : BlobSha) :
    (repo.add ofBytes path content).objects.lookup sha =
      (repo.objects.lookup sha).or (if sha = ofBytes content then some content else none) := by
  change (repo.store (ofBytes content) content).objects.lookup sha = _
  unfold store
  split
  · rename_i present
    obtain ⟨stored, found⟩ := Option.isSome_iff_exists.mp present
    split
    · rename_i same
      rw [same, found, Option.some_or]
    · rw [Option.or_none]
  · rename_i absent
    split
    · rename_i same
      rw [same, AList.lookup_insert, Option.not_isSome_iff_eq_none.mp absent, Option.none_or]
    · rename_i other
      rw [AList.lookup_insert_ne other, Option.or_none]

theorem grows_add (path : List Name) (content : Content) : repo.Grows ofBytes (repo.add ofBytes path content) where
  kept sha stored found := by rw [objects_add, found, Option.some_or]
  addressed held sha stored found := by
    rw [objects_add] at found
    rcases Option.or_eq_some_iff.mp found with earlier | ⟨-, new⟩
    · exact held sha stored earlier
    · split at new
      · rename_i same
        rw [← Option.some.inj new, same]
      · cases new

theorem grows_addFiles (files : List (List Name × Content)) : repo.Grows ofBytes (repo.addFiles ofBytes files) := by
  induction files with
  | nil => exact .of_objects rfl
  | cons file files ih => exact ih.trans (grows_add file.1 file.2)

theorem stored_addFiles {files : List (List Name × Content)} {path : List Name} {content : Content}
    (member : (path, content) ∈ files) :
    ∃ stored, (repo.addFiles ofBytes files).objects.lookup (ofBytes content) = some stored := by
  induction files with
  | nil => cases member
  | cons file files ih =>
    change ∃ stored, ((repo.addFiles ofBytes files).add ofBytes file.1 file.2).objects.lookup _ = some stored
    rcases List.mem_cons.mp member with rfl | later
    · rw [objects_add, if_pos rfl]
      cases (repo.addFiles ofBytes files).objects.lookup (ofBytes content) with
      | none => exact ⟨content, rfl⟩
      | some stored => exact ⟨stored, rfl⟩
    · obtain ⟨stored, found⟩ := ih later
      exact ⟨stored, (grows_add _ _).kept _ _ found⟩

end Objects

end Repo

namespace Git

def isTempfile (path : List Name) : Bool := path.getLast?.any fun name => containsText name.text ".tmp."

def work (tree : FileTree Name Content) (root : List Name) : WorkTree := fun path => tree.lookup (root ++ path)

/-- The files of the working tree. What is called `.git` is none of it. -/
def workFiles (tree : FileTree Name Content) (root : List Name) : List (List Name × Content) :=
  tree.files.filterMap fun path =>
    let below := path.drop root.length
    if root <+: path ∧ below ≠ [] ∧ (below.any fun name => name.text == ".git") = false then
      (tree.read path).map (below, ·)
    else none

/-- `index.add_all`. What is tracked is staged also where the rules leave it out. Files go in as
they are: no attribute converts them, and only `.git` itself is no name for one. -/
def addAll (ofBytes : Content → BlobSha) (rules : GitRules) (tree : FileTree Name Content) (root : List Name)
    (repo : Repo) : Repo :=
  repo.addFiles ofBytes ((workFiles tree root).filter fun (path, _) =>
    !isTempfile path && ((repo.index.lookup path).isSome || rules.admits (work tree root) path))

/-- `index.update_all`: every tracked file is as it is on disk, or it is dropped. -/
def updateAll (ofBytes : Content → BlobSha) (tree : FileTree Name Content) (root : List Name) (repo : Repo) : Repo :=
  { repo with index := ∅ }.addFiles ofBytes
    ((workFiles tree root).filter fun (path, _) => (repo.index.lookup path).isSome)

def stage (ofBytes : Content → BlobSha) (rules : GitRules) (tree : FileTree Name Content) (root : List Name)
    (repo : Repo) : Repo :=
  updateAll ofBytes tree root (addAll ofBytes rules tree root repo)

section Staging

variable {ofBytes : Content → BlobSha} {rules : GitRules} {tree : FileTree Name Content} {root path : List Name}
  {content : Content} {repo : Repo} {sha : BlobSha}

theorem mem_workFiles : (path, content) ∈ workFiles tree root ↔
    path ≠ [] ∧ (∀ name ∈ path, name.text ≠ ".git") ∧ tree.read (root ++ path) = some content := by
  unfold workFiles
  rw [List.mem_filterMap]
  constructor
  · intro ⟨whole, _, found⟩
    simp only [Option.ite_none_right_eq_some, Option.map_eq_some_iff, Prod.mk.injEq] at found
    obtain ⟨⟨⟨rest, rfl⟩, below, plain⟩, written, read, rfl, rfl⟩ := found
    rw [List.drop_left] at below plain ⊢
    exact ⟨below, by simpa using plain, read⟩
  · intro ⟨below, plain, read⟩
    have file : root ++ path ∈ tree.files :=
      FileTree.mem_files.mpr (FileTree.isSome_read.mp (by rw [read]; rfl))
    refine ⟨root ++ path, file, ?_⟩
    rw [List.drop_left]
    simp only [Option.ite_none_right_eq_some, read, Option.map_some, and_true]
    exact ⟨List.prefix_append _ _, below, by simpa using plain⟩

theorem workFiles_single {other : Content} (member : (path, content) ∈ workFiles tree root)
    (again : (path, other) ∈ workFiles tree root) : other = content :=
  Option.some.inj ((mem_workFiles.mp again).2.2.symm.trans (mem_workFiles.mp member).2.2)

theorem index_addAll : ((addAll ofBytes rules tree root repo).index.lookup path).isSome ↔
    (repo.index.lookup path).isSome ∨ isTempfile path = false ∧ rules.admits (work tree root) path = true ∧
      ∃ content, (path, content) ∈ workFiles tree root := by
  unfold addAll
  by_cases listed : ∃ content, (path, content) ∈ workFiles tree root
  · obtain ⟨content, member⟩ := listed
    by_cases kept : (!isTempfile path && ((repo.index.lookup path).isSome || rules.admits (work tree root) path)) = true
    · rw [Repo.index_addFiles (List.mem_filter.mpr ⟨member, kept⟩)
        fun other among => workFiles_single member (List.mem_of_mem_filter among)]
      simp only [Bool.and_eq_true, Bool.not_eq_true', Bool.or_eq_true] at kept
      exact ⟨fun _ => kept.2.imp_right fun admitted => ⟨kept.1, admitted, content, member⟩, fun _ => rfl⟩
    · rw [Repo.index_addFiles_absent fun other among => kept (List.mem_filter.mp among).2]
      refine ⟨.inl, fun either => either.resolve_right fun ⟨plain, admitted, _⟩ => kept ?_⟩
      simp [plain, admitted]
  · rw [Repo.index_addFiles_absent fun content among => listed ⟨content, List.mem_of_mem_filter among⟩]
    exact ⟨.inl, fun either => either.resolve_right fun ⟨_, _, found⟩ => listed found⟩

/-- What is staged: the files of the working tree that were tracked, and those that the rules
let in. -/
theorem index_stage : (stage ofBytes rules tree root repo).index.lookup path = some sha ↔
    ∃ content, (path, content) ∈ workFiles tree root ∧ ofBytes content = sha ∧
      ((repo.index.lookup path).isSome ∨ isTempfile path = false ∧ rules.admits (work tree root) path = true) := by
  have updated : ∀ content, (path, content) ∈ (workFiles tree root).filter (fun (path, _) =>
      ((addAll ofBytes rules tree root repo).index.lookup path).isSome) ↔
      (path, content) ∈ workFiles tree root ∧ ((addAll ofBytes rules tree root repo).index.lookup path).isSome :=
    fun content => List.mem_filter
  unfold stage updateAll
  by_cases kept : ∃ content, (path, content) ∈ workFiles tree root ∧
      ((addAll ofBytes rules tree root repo).index.lookup path).isSome
  · obtain ⟨content, member, tracked⟩ := kept
    rw [Repo.index_addFiles ((updated content).mpr ⟨member, tracked⟩)
      fun other among => workFiles_single member ((updated other).mp among).1, Option.some.injEq]
    constructor
    · intro same
      exact ⟨content, member, same, (index_addAll.mp tracked).imp_right fun ⟨plain, admitted, _⟩ => ⟨plain, admitted⟩⟩
    · intro ⟨other, among, same, _⟩
      rw [← same, workFiles_single member among]
  · rw [Repo.index_addFiles_absent fun content among => kept ⟨content, (updated content).mp among⟩]
    change none = some sha ↔ _
    constructor
    · intro nothing
      cases nothing
    · intro ⟨content, member, _, staged⟩
      exact (kept ⟨content, member, index_addAll.mpr (staged.imp_right fun ⟨plain, admitted⟩ =>
        ⟨plain, admitted, content, member⟩)⟩).elim

theorem grows_updateAll : repo.Grows ofBytes (updateAll ofBytes tree root repo) :=
  (show repo.Grows ofBytes { repo with index := ∅ } from .of_objects rfl).trans (Repo.grows_addFiles _)

theorem grows_stage : repo.Grows ofBytes (stage ofBytes rules tree root repo) :=
  (Repo.grows_addFiles _).trans grows_updateAll

/-- A file that git's walk comes to is stored, if the callback lets it through. -/
theorem stored_stage (member : (path, content) ∈ workFiles tree root) (plain : isTempfile path = false)
    (admitted : rules.admits (work tree root) path = true) :
    ∃ stored, (stage ofBytes rules tree root repo).objects.lookup (ofBytes content) = some stored := by
  have added : ∃ stored, (addAll ofBytes rules tree root repo).objects.lookup (ofBytes content) = some stored :=
    Repo.stored_addFiles (List.mem_filter.mpr ⟨member, by simp [plain, admitted]⟩)
  obtain ⟨stored, found⟩ := added
  exact ⟨stored, grows_updateAll.kept _ _ found⟩

end Staging

/-- `write_tree`: the entries of the index, in the order of their paths. -/
def writeTree (repo : Repo) : List (List Name × BlobSha) :=
  (repo.index.entries.map fun entry => (entry.1, entry.2)).insertionSort fun first second =>
    (joinPath first.1).toList ≤ (joinPath second.1).toList

def manifestFromTree (tree : List (List Name × BlobSha)) : List (String × BlobSha) :=
  tree.map fun (path, sha) => (joinPath path, sha)

theorem mem_manifestFromTree {repo : Repo} {rel : String} {sha : BlobSha} :
    (rel, sha) ∈ manifestFromTree (writeTree repo) ↔ ∃ path, joinPath path = rel ∧ repo.index.lookup path = some sha := by
  unfold manifestFromTree writeTree
  rw [List.mem_map]
  constructor
  · intro ⟨⟨path, pinned⟩, member, same⟩
    cases same
    obtain ⟨entry, among, same⟩ := List.mem_map.mp ((List.mem_insertionSort _).mp member)
    cases same
    exact ⟨entry.1, rfl, AList.mem_lookup_iff.mpr among⟩
  · intro ⟨path, same, found⟩
    exact ⟨(path, sha), (List.mem_insertionSort _).mpr (List.mem_map.mpr ⟨⟨path, sha⟩, AList.mem_lookup_iff.mp found, rfl⟩),
      Prod.ext same rfl⟩

/-- A staged tree that `HEAD` has already makes no commit. -/
def commitBlocking (ofBytes : Content → BlobSha) (rules : GitRules) (tree : FileTree Name Content) (root : List Name)
    (message : String) (repo : Repo) : List (String × BlobSha) × Repo :=
  let staged := stage ofBytes rules tree root repo
  let written := writeTree staged
  if staged.commits.head?.map (·.tree) = some written then (manifestFromTree written, staged)
  else (manifestFromTree written, { staged with commits := ⟨message, written⟩ :: staged.commits })

section Committing

variable {ofBytes : Content → BlobSha} {rules : GitRules} {tree : FileTree Name Content} {root : List Name}
  {message : String} {repo : Repo}

theorem commitBlocking_manifest : (commitBlocking ofBytes rules tree root message repo).1 =
    manifestFromTree (writeTree (stage ofBytes rules tree root repo)) := by
  unfold commitBlocking
  simp only
  split <;> rfl

theorem commitBlocking_index : (commitBlocking ofBytes rules tree root message repo).2.index =
    (stage ofBytes rules tree root repo).index := by
  unfold commitBlocking
  simp only
  split <;> rfl

theorem commitBlocking_objects : (commitBlocking ofBytes rules tree root message repo).2.objects =
    (stage ofBytes rules tree root repo).objects := by
  unfold commitBlocking
  simp only
  split <;> rfl

theorem grows_commitBlocking : repo.Grows ofBytes (commitBlocking ofBytes rules tree root message repo).2 :=
  grows_stage.trans (.of_objects commitBlocking_objects)

end Committing

/-- `read_at_blocking`, of an address that is one. -/
def readAtBlocking (repo : Repo) (sha : BlobSha) : Option Content := repo.objects.lookup sha

end Git

/-- A repository that is not there yet is an empty one. -/
structure PerAgentGitStorage where
  data : LocalStorage
  repos : List Name → Repo

namespace PerAgentGitStorage

def new : PerAgentGitStorage := ⟨⟨.empty⟩, fun _ => .init⟩

def repoRoot (agentPrefix : String) : List Name := keyPath agentPrefix

def setRepo (storage : PerAgentGitStorage) (root : List Name) (repo : Repo) : PerAgentGitStorage :=
  { storage with repos := fun other => if other = root then repo else storage.repos other }

def commit (ofBytes : Content → BlobSha) (rules : GitRules) (storage : PerAgentGitStorage) (agentPrefix message : String) :
    List (String × BlobSha) × PerAgentGitStorage :=
  let root := repoRoot agentPrefix
  let (manifest, repo) := Git.commitBlocking ofBytes rules storage.data.tree root message (storage.repos root)
  (manifest, storage.setRepo root repo)

def readAt (storage : PerAgentGitStorage) (agentPrefix : String) (sha : BlobSha) : Option Content :=
  Git.readAtBlocking (storage.repos (repoRoot agentPrefix)) sha

instance : AgentStorage PerAgentGitStorage where
  put storage key value := (storage.data.put key value).map fun data => { storage with data }
  putIfAbsent storage key value := (storage.data.putIfAbsent key value).map fun (outcome, data) => (outcome, { storage with data })
  get storage key := storage.data.get key
  delete storage key := (storage.data.delete key).map fun data => { storage with data }
  list storage start after limit := storage.data.list start after limit

end PerAgentGitStorage

end Coral

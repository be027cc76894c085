import Coral.Proofs.CommitManifest
import Mathlib.Data.List.Chain

/-! The history that an agent's commits make. Whatever is written, deleted or stopped in
between, the log only grows, and every version in it is read back for good. -/

namespace Coral.Proofs
open Coral.Library Coral.Temporal

section Repository

variable {ofBytes : Content → BlobSha} {rules : GitRules} {tree : FileTree Name Content} {root : List Name}
  {message : String} {repo after : Repo}

/-- The blob is there, under its own address. -/
def Held (ofBytes : Content → BlobSha) (repo : Repo) (sha : BlobSha) : Prop :=
  ∃ bytes, repo.objects.lookup sha = some bytes ∧ ofBytes bytes = sha

/-- What the index or a commit lists is held, and no commit repeats the tree of the one before. -/
structure Whole (ofBytes : Content → BlobSha) (repo : Repo) : Prop where
  addressed : repo.Addressed ofBytes
  indexed : ∀ path sha, repo.index.lookup path = some sha → (repo.objects.lookup sha).isSome = true
  logged : ∀ commit ∈ repo.commits, ∀ entry ∈ commit.tree, (repo.objects.lookup entry.2).isSome = true
  changing : repo.commits.IsChain fun later earlier => later.tree ≠ earlier.tree

/-- The repository goes on from the other: no blob is lost, and no commit. -/
def Extends (ofBytes : Content → BlobSha) (repo after : Repo) : Prop :=
  repo.Grows ofBytes after ∧ repo.commits <:+ after.commits

theorem Extends.refl (repo : Repo) : Extends ofBytes repo repo := ⟨.refl _, List.suffix_refl _⟩

theorem Extends.trans {middle : Repo} (first : Extends ofBytes repo middle) (second : Extends ofBytes middle after) :
    Extends ofBytes repo after := ⟨first.1.trans second.1, first.2.trans second.2⟩

theorem Whole.held (whole : Whole ofBytes repo) {sha : BlobSha} (there : (repo.objects.lookup sha).isSome = true) :
    Held ofBytes repo sha := by
  obtain ⟨bytes, found⟩ := Option.isSome_iff_exists.mp there
  exact ⟨bytes, found, whole.addressed sha bytes found⟩

theorem grows_isSome (grows : repo.Grows ofBytes after) {sha : BlobSha}
    (there : (repo.objects.lookup sha).isSome = true) : (after.objects.lookup sha).isSome = true := by
  obtain ⟨bytes, found⟩ := Option.isSome_iff_exists.mp there
  rw [grows.kept sha bytes found]
  rfl

theorem commits_addFiles (files : List (List Name × Content)) : (repo.addFiles ofBytes files).commits = repo.commits := by
  induction files with
  | nil => rfl
  | cons file files ih =>
    change (((repo.addFiles ofBytes files).store (ofBytes file.2) file.2)).commits = _
    unfold Repo.store
    split <;> exact ih

theorem commits_stage : (Git.stage ofBytes rules tree root repo).commits = repo.commits :=
  (commits_addFiles _).trans (commits_addFiles _)

/-- What is staged is stored with it. -/
theorem indexed_addFiles (files : List (List Name × Content))
    (indexed : ∀ path sha, repo.index.lookup path = some sha → (repo.objects.lookup sha).isSome = true)
    (path : List Name) (sha : BlobSha) (found : (repo.addFiles ofBytes files).index.lookup path = some sha) :
    ((repo.addFiles ofBytes files).objects.lookup sha).isSome = true := by
  induction files with
  | nil => exact indexed path sha found
  | cons file files ih =>
    change ((repo.addFiles ofBytes files).add ofBytes file.1 file.2).index.lookup path = some sha at found
    change (((repo.addFiles ofBytes files).add ofBytes file.1 file.2).objects.lookup sha).isSome = true
    rw [Repo.index_add] at found
    split at found
    · obtain rfl := Option.some.inj found
      rw [Repo.objects_add, if_pos rfl, Option.isSome_or, Option.isSome_some, Bool.or_true]
    · exact grows_isSome (Repo.grows_add _ _) (ih found)

theorem whole_init : Whole ofBytes .init where
  addressed sha content found := by cases found
  indexed path sha found := by cases found
  logged commit member := absurd member List.not_mem_nil
  changing := .nil

theorem Whole.stage (whole : Whole ofBytes repo) : Whole ofBytes (Git.stage ofBytes rules tree root repo) where
  addressed := Git.grows_stage.addressed whole.addressed
  indexed := indexed_addFiles _ fun _ _ absent => by cases absent
  logged := by
    rw [commits_stage]
    exact fun commit member entry among => grows_isSome Git.grows_stage (whole.logged commit member entry among)
  changing := by
    rw [commits_stage]
    exact whole.changing

theorem extends_stage : Extends ofBytes repo (Git.stage ofBytes rules tree root repo) :=
  ⟨Git.grows_stage, by rw [commits_stage]⟩

theorem mem_writeTree {entry : List Name × BlobSha} :
    entry ∈ Git.writeTree repo ↔ repo.index.lookup entry.1 = some entry.2 := by
  unfold Git.writeTree
  rw [List.mem_insertionSort, List.mem_map]
  constructor
  · rintro ⟨listed, member, rfl⟩
    exact AList.mem_lookup_iff.mpr member
  · intro found
    exact ⟨⟨entry.1, entry.2⟩, AList.mem_lookup_iff.mp found, rfl⟩

/-- A commit leaves the repository staged, and its tree at the head of the log: what was there
already, or new and unlike what was there. -/
theorem commitBlocking_log : ∃ commit earlier,
    (Git.commitBlocking ofBytes rules tree root message repo).2.commits = commit :: earlier ∧
      commit.tree = Git.writeTree (Git.stage ofBytes rules tree root repo) ∧
      (commit :: earlier = repo.commits ∨ earlier = repo.commits ∧ ∀ head ∈ repo.commits.head?, commit.tree ≠ head.tree) := by
  unfold Git.commitBlocking
  simp only [commits_stage]
  split
  · rename_i clean
    obtain ⟨head, last, same⟩ := Option.map_eq_some_iff.mp clean
    obtain ⟨earlier, log⟩ := List.head?_eq_some_iff.mp last
    exact ⟨head, earlier, commits_stage.trans log, same, .inl log.symm⟩
  · rename_i dirty
    refine ⟨⟨message, _⟩, repo.commits, rfl, rfl, .inr ⟨rfl, ?_⟩⟩
    intro head last same
    rw [Option.mem_def.mp last] at dirty
    exact dirty (congrArg some same.symm)

theorem extends_commitBlocking :
    Extends ofBytes repo (Git.commitBlocking ofBytes rules tree root message repo).2 := by
  obtain ⟨commit, earlier, log, -, same | ⟨same, -⟩⟩ := @commitBlocking_log ofBytes rules tree root message repo
  · exact ⟨Git.grows_commitBlocking, by rw [log, same]⟩
  · refine ⟨Git.grows_commitBlocking, ?_⟩
    rw [log, same]
    exact List.suffix_cons _ _

theorem Whole.commitBlocking (whole : Whole ofBytes repo) :
    Whole ofBytes (Git.commitBlocking ofBytes rules tree root message repo).2 := by
  have staged : Whole ofBytes (Git.stage ofBytes rules tree root repo) := whole.stage
  obtain ⟨commit, earlier, log, tip, shape⟩ := @commitBlocking_log ofBytes rules tree root message repo
  refine ⟨Git.grows_commitBlocking.addressed whole.addressed, ?_, ?_, ?_⟩
  · rw [Git.commitBlocking_index, Git.commitBlocking_objects]
    exact staged.indexed
  · rw [log, Git.commitBlocking_objects]
    intro other member entry among
    rcases List.mem_cons.mp member with rfl | old
    · rw [tip] at among
      exact staged.indexed _ _ (mem_writeTree.mp among)
    · have before : other ∈ repo.commits := by
        rcases shape with same | ⟨same, -⟩
        · exact same ▸ List.mem_cons_of_mem _ old
        · exact same ▸ old
      exact grows_isSome Git.grows_stage (whole.logged other before entry among)
  · rw [log]
    rcases shape with same | ⟨rfl, fresh⟩
    · rw [same]
      exact whole.changing
    · exact List.isChain_cons.mpr ⟨fresh, whole.changing⟩

end Repository

section Runs

variable {ofBytes : Content → BlobSha} {rules : GitRules} {state next final : History} {graphId : GraphId}
  {agentId : AgentId} {message : String}

/-- A step leaves every repository as it is, but for the one that it stages or commits to. -/
theorem repos_step {event : OwnEvent} {manifests : List (List (String × BlobSha))}
    (stepped : state.step ofBytes rules event = some (next, manifests)) (root : List Name) :
    next.storage.repos root = state.storage.repos root ∨
      next.storage.repos root = Git.stage ofBytes rules state.storage.data.tree root (state.storage.repos root) ∨
      ∃ message, next.storage.repos root =
        (Git.commitBlocking ofBytes rules state.storage.data.tree root message (state.storage.repos root)).2 := by
  have chosen (other : List Name) (repo : Repo) : (state.storage.setRepo other repo).repos root =
      if root = other then repo else state.storage.repos root := rfl
  cases event with
  | put file value =>
    left
    unfold History.step at stepped
    simp only at stepped
    split at stepped
    · rename_i storage put
      cases stepped
      change (state.storage.data.put file.key value).map _ = _ at put
      obtain ⟨data, -, rfl⟩ := map_data put
      rfl
    · cases stepped
      rfl
  | putIfAbsent file value =>
    left
    unfold History.step at stepped
    simp only at stepped
    split at stepped
    · rename_i storage put
      cases stepped
      change (state.storage.data.putIfAbsent file.key value).map _ = _ at put
      obtain ⟨⟨outcome, data⟩, -, shape⟩ := map_data put
      cases shape
      rfl
    · rename_i storage put
      cases stepped
      change (state.storage.data.putIfAbsent file.key value).map _ = _ at put
      obtain ⟨⟨outcome, data⟩, -, shape⟩ := map_data put
      cases shape
      rfl
    · cases stepped
      rfl
  | delete file =>
    left
    unfold History.step at stepped
    simp only at stepped
    split at stepped
    · rename_i storage deleted
      cases stepped
      change (state.storage.data.delete file.key).map _ = _ at deleted
      obtain ⟨data, -, rfl⟩ := map_data deleted
      rfl
    · cases stepped
      rfl
  | stopped file call left_ =>
    left
    obtain ⟨after, stopped, shape⟩ := Option.map_eq_some_iff.mp stepped
    cases shape
    obtain ⟨data, path, below, rfl, -⟩ := stop_reads stopped
    rfl
  | commit graphId agentId message =>
    cases stepped
    change (state.storage.setRepo _ _).repos root = _ ∨ (state.storage.setRepo _ _).repos root = _ ∨
      ∃ message, (state.storage.setRepo _ _).repos root = _
    rw [chosen]
    split
    · rename_i here
      rw [here]
      exact .inr (.inr ⟨message, rfl⟩)
    · exact .inl rfl
  | stoppedCommit graphId agentId =>
    cases stepped
    rw [chosen]
    split
    · rename_i here
      rw [here]
      exact .inr (.inl rfl)
    · exact .inl rfl

theorem Whole.step {event : OwnEvent} {manifests : List (List (String × BlobSha))}
    (stepped : state.step ofBytes rules event = some (next, manifests)) {root : List Name}
    (whole : Whole ofBytes (state.storage.repos root)) : Whole ofBytes (next.storage.repos root) := by
  rcases repos_step stepped root with same | staged | ⟨message, committed⟩
  · rw [same]
    exact whole
  · rw [staged]
    exact whole.stage
  · rw [committed]
    exact whole.commitBlocking

theorem extends_step {event : OwnEvent} {manifests : List (List (String × BlobSha))}
    (stepped : state.step ofBytes rules event = some (next, manifests)) (root : List Name) :
    Extends ofBytes (state.storage.repos root) (next.storage.repos root) := by
  rcases repos_step stepped root with same | staged | ⟨message, committed⟩
  · rw [same]
    exact .refl _
  · rw [staged]
    exact extends_stage
  · rw [committed]
    exact extends_commitBlocking

theorem whole_run {events : List OwnEvent} {manifests : List (List (String × BlobSha))}
    (ran : (histories ofBytes rules).run .start events = some (state, manifests)) (root : List Name) :
    Whole ofBytes (state.storage.repos root) := by
  refine (histories ofBytes rules).run_invariant (fun state => Whole ofBytes (state.storage.repos root)) ?_ ?_ ran
  · exact whole_init
  · intro state event next manifests whole stepped
    rw [histories_step] at stepped
    exact Whole.step stepped whole

theorem extends_run {events : List OwnEvent} {manifests : List (List (String × BlobSha))}
    (ran : (histories ofBytes rules).run state events = some (final, manifests)) (root : List Name) :
    Extends ofBytes (state.storage.repos root) (final.storage.repos root) := by
  refine (histories ofBytes rules).run_invariant
    (fun final => Extends ofBytes (state.storage.repos root) (final.storage.repos root)) (.refl _) ?_ ran
  intro middle event next manifests earlier stepped
  rw [histories_step] at stepped
  exact earlier.trans (extends_step stepped root)

/-- The version is read back from the agent's repository, under its own address. -/
def Readable (ofBytes : Content → BlobSha) (storage : PerAgentGitStorage) (graphId : GraphId) (agentId : AgentId)
    (sha : BlobSha) : Prop :=
  ∃ bytes, storage.readAt (FsHandle.forAgent graphId agentId).storagePrefix sha = some bytes ∧ ofBytes bytes = sha

theorem readable_iff {storage : PerAgentGitStorage} {sha : BlobSha} : Readable ofBytes storage graphId agentId sha ↔
    Held ofBytes (storage.repos (agentRoot graphId agentId)) sha := by
  unfold Readable PerAgentGitStorage.readAt
  rw [repoRoot_forAgent]
  exact Iff.rfl

theorem commit_step {manifest : List (String × BlobSha)}
    (committed : (histories ofBytes rules).step state (.commit graphId agentId message) = some (next, [manifest])) :
    (state.storage.commit ofBytes rules (FsHandle.forAgent graphId agentId).storagePrefix message).1 = manifest ∧
      next.storage = (state.storage.commit ofBytes rules (FsHandle.forAgent graphId agentId).storagePrefix message).2 := by
  obtain ⟨after, answer⟩ := Prod.mk.inj (Option.some.inj committed)
  exact ⟨List.singleton_inj.mp answer, congrArg History.storage after.symm⟩

theorem commit_repo : (state.storage.commit ofBytes rules (FsHandle.forAgent graphId agentId).storagePrefix message).2.repos
      (agentRoot graphId agentId) = (Git.commitBlocking ofBytes rules state.storage.data.tree (agentRoot graphId agentId)
        message (state.storage.repos (agentRoot graphId agentId))).2 := by
  unfold PerAgentGitStorage.commit PerAgentGitStorage.setRepo
  rw [repoRoot_forAgent]
  exact if_pos rfl

/-- Whatever is written and committed before and after, what a commit answers is the tree of a
commit for good, and each of its versions, which the agent's files had at the time, is read back
for good. So is every version in the log of any agent, which only grows, each commit with
another tree than the one before it. -/
theorem history_durable {before later : List OwnEvent} {earlier manifests : List (List (String × BlobSha))}
    {manifest : List (String × BlobSha)} (came : (histories ofBytes rules).run .start before = some (state, earlier))
    (committed : (histories ofBytes rules).step state (.commit graphId agentId message) = some (next, [manifest]))
    (ran : (histories ofBytes rules).run next later = some (final, manifests)) :
    (∃ commit ∈ (final.storage.repos (agentRoot graphId agentId)).commits, Git.manifestFromTree commit.tree = manifest) ∧
    (∀ rel sha, (rel, sha) ∈ manifest →
      (∃ value, AgentStorage.get state.storage ((AgentFs.openForAgent graphId agentId).key rel) = .ok (some value) ∧
        ofBytes value = sha) ∧ Readable ofBytes final.storage graphId agentId sha) ∧
    ∀ graphId agentId, (state.storage.repos (agentRoot graphId agentId)).commits <:+
        (final.storage.repos (agentRoot graphId agentId)).commits ∧
      ((final.storage.repos (agentRoot graphId agentId)).commits.IsChain fun later earlier => later.tree ≠ earlier.tree) ∧
      ∀ commit ∈ (final.storage.repos (agentRoot graphId agentId)).commits, ∀ path sha, (path, sha) ∈ commit.tree →
        Readable ofBytes final.storage graphId agentId sha := by
  have arrived : (histories ofBytes rules).run .start (before ++ [.commit graphId agentId message]) =
      some (next, earlier ++ [manifest]) :=
    (histories ofBytes rules).run_snoc.mpr ⟨state, earlier, [manifest], came, committed, rfl⟩
  have whole (root : List Name) : Whole ofBytes (final.storage.repos root) :=
    whole_run ((histories ofBytes rules).run_append.mpr ⟨next, _, _, arrived, ran, rfl⟩) root
  have readable : ∀ graphId agentId, ∀ commit ∈ (final.storage.repos (agentRoot graphId agentId)).commits,
      ∀ path sha, (path, sha) ∈ commit.tree → Readable ofBytes final.storage graphId agentId sha := by
    intro graphId agentId commit member path sha among
    exact readable_iff.mpr ((whole _).held ((whole _).logged commit member (path, sha) among))
  obtain ⟨answer, after⟩ := commit_step committed
  obtain ⟨commit, others, log, tip, -⟩ := @commitBlocking_log ofBytes rules state.storage.data.tree
    (agentRoot graphId agentId) message (state.storage.repos (agentRoot graphId agentId))
  have logged : commit ∈ (final.storage.repos (agentRoot graphId agentId)).commits := by
    refine (extends_run ran (agentRoot graphId agentId)).2.subset ?_
    rw [after, commit_repo, log]
    exact List.mem_cons_self
  have listed : Git.manifestFromTree commit.tree = manifest := by
    rw [tip, ← answer]
    unfold PerAgentGitStorage.commit
    rw [repoRoot_forAgent]
    exact Git.commitBlocking_manifest.symm
  refine ⟨⟨commit, logged, listed⟩, ?_, ?_⟩
  · intro rel sha member
    constructor
    · rw [← answer] at member
      obtain ⟨path, value, rfl, -, same, read, -⟩ := mem_commit_agent.mp member
      exact ⟨value, get_agent read, same⟩
    · rw [← listed] at member
      obtain ⟨entry, among, same⟩ := List.mem_map.mp member
      cases same
      exact readable graphId agentId commit logged entry.1 entry.2 among
  · intro graphId agentId
    refine ⟨?_, (whole _).changing, readable graphId agentId⟩
    have committing := extends_step ((histories_step ofBytes rules state _).symm.trans committed) (agentRoot graphId agentId)
    exact committing.2.trans (extends_run ran _).2

end Runs

section Examples

private def weekly : GraphId := ⟨⟨0⟩⟩

private def columnist : AgentId := ⟨⟨1⟩⟩

private theorem column_path : keyPath "notes/column.md" = [notesName, ⟨"column.md", by decide⟩] := by decide

private def column : OwnFile := ⟨weekly, columnist, "notes/column.md", notesName, _, column_path, by decide⟩

private def firstAddress : BlobSha := ⟨"fe4f02ad058b43f6ed467fdf65b935107529564b"⟩

private def addresses (content : Content) : BlobSha :=
  if content = .text "first" then firstAddress else ⟨"9c59e24b8393179a5d712de4f990178df5734d99"⟩

private def anything : GitRules := ⟨fun _ _ => false, fun _ _ => false⟩

/-- The column is committed, written anew and committed again, and deleted. -/
private def issues : List OwnEvent :=
  [.put column (.text "second"), .commit weekly columnist "tick 1", .delete column, .commit weekly columnist "tick 2"]

private theorem printed : ((histories addresses anything).run .start [.put column (.text "first")]).map (·.2) = some [] := by
  decide +kernel

private theorem published : ((histories addresses anything).run .start
      ([.put column (.text "first")] ++ .commit weekly columnist "tick 0" :: issues)).map
        (fun ended => (ended.1.storage.data.tree.read column.path, ended.2.head?)) =
    some (none, some [("notes/column.md", firstAddress)]) := by
  decide +kernel

theorem history_durable_column : ∃ final manifests,
    (histories addresses anything).run .start
      ([.put column (.text "first")] ++ .commit weekly columnist "tick 0" :: issues) = some (final, manifests) ∧
    final.storage.data.tree.read column.path = none ∧ Readable addresses final.storage weekly columnist firstAddress := by
  obtain ⟨⟨final, manifests⟩, ran, shape⟩ := Option.map_eq_some_iff.mp published
  obtain ⟨deleted, first⟩ := Prod.mk.inj shape
  obtain ⟨state, earlier, rest, came, continued, rfl⟩ := (histories addresses anything).run_append.mp ran
  obtain ⟨next, answers, more, committed, ended, rfl⟩ := (histories addresses anything).run_cons.mp continued
  obtain rfl : earlier = [] := by
    have silent := printed
    rw [came] at silent
    exact Option.some.inj silent
  obtain ⟨manifest, rfl⟩ : ∃ manifest, answers = [manifest] :=
    ⟨_, (congrArg Prod.snd (Option.some.inj committed)).symm⟩
  obtain ⟨-, versions, -⟩ := history_durable came committed ended
  have listed : manifest = [("notes/column.md", firstAddress)] := Option.some.inj first
  exact ⟨final, _, ran, deleted, (versions "notes/column.md" firstAddress (listed ▸ List.mem_cons_self)).2⟩

end Examples

end Coral.Proofs

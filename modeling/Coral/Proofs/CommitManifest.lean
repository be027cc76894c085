import Coral.Node.LocalWrites
import Coral.Node.PerAgentGit
import Coral.Proofs.AgentPrefixes
import Coral.Proofs.NotePlan

/-! What a commit of an agent's files holds, beside what a listing of them shows, over any
history of writes, deletions, stopped calls and earlier commits. -/

namespace Coral.Proofs
open Coral.Library Coral.Temporal

def agentRoot (graphId : GraphId) (agentId : AgentId) : List Name :=
  [graphsName, idName graphId.uuid, agentsName, idName agentId.uuid]

/-- A file of an agent. None leads into the repository that the agent's directory holds. -/
structure OwnFile where
  graphId : GraphId
  agentId : AgentId
  rest : String
  own : ∃ first below, keyPath rest = first :: below ∧ first.text ≠ ".git"

namespace OwnFile

def key (file : OwnFile) : String := (AgentFs.openForAgent file.graphId file.agentId).key file.rest

def path (file : OwnFile) : List Name := agentRoot file.graphId file.agentId ++ keyPath file.rest

theorem keyPath_key (file : OwnFile) : keyPath file.key = file.path := keyPath_agent _ _ _

theorem below (file : OwnFile) : keyPath file.rest ≠ [] := by
  obtain ⟨first, below, split, -⟩ := file.own
  rw [split]
  exact List.cons_ne_nil _ _

end OwnFile

inductive OwnEvent where
  | put (file : OwnFile) (value : Content)
  | putIfAbsent (file : OwnFile) (value : Content)
  | delete (file : OwnFile)
  | stopped (file : OwnFile) (call : WriteCall) (left : Content)
  | commit (graphId : GraphId) (agentId : AgentId) (message : String)
  | stoppedCommit (graphId : GraphId) (agentId : AgentId)

/-- The store, and the paths that an accepted write has put a file at since it was last deleted. -/
structure History where
  storage : PerAgentGitStorage
  written : List (List Name)

namespace History

def start : History := ⟨.new, []⟩

/-- What a call leaves that is stopped before it ends. -/
def stop (state : History) (file : OwnFile) (call : WriteCall) (left : Content) : Option History :=
  match file.path.getLast? with
  | none => none
  | some name =>
    match state.storage.data.tree.createDirAll file.path.dropLast with
    | .error _ => none
    | .ok made =>
      match made.createNew (call.file file.path.dropLast name) left with
      | .error _ => none
      | .ok tree => some { state with storage := { state.storage with data := ⟨tree⟩ } }

def step (ofBytes : Content → BlobSha) (rules : GitRules) (state : History) :
    OwnEvent → Option (History × List (List (String × BlobSha)))
  | .put file value =>
    match AgentStorage.put state.storage file.key value with
    | .ok storage => some (⟨storage, file.path :: state.written⟩, [])
    | .error _ => some (state, [])
  | .putIfAbsent file value =>
    match AgentStorage.putIfAbsent state.storage file.key value with
    | .ok (.created, storage) => some (⟨storage, file.path :: state.written⟩, [])
    | .ok (.existed, storage) => some ({ state with storage }, [])
    | .error _ => some (state, [])
  | .delete file =>
    match AgentStorage.delete state.storage file.key with
    | .ok storage => some (⟨storage, state.written.filter (· ≠ file.path)⟩, [])
    | .error _ => some (state, [])
  | .stopped file call left => (state.stop file call left).map (·, [])
  | .commit graphId agentId message =>
    let (manifest, storage) :=
      state.storage.commit ofBytes rules (FsHandle.forAgent graphId agentId).storagePrefix message
    some ({ state with storage }, [manifest])
  | .stoppedCommit graphId agentId =>
    let root := agentRoot graphId agentId
    let staged := Git.stage ofBytes rules state.storage.data.tree root (state.storage.repos root)
    some ({ state with storage := state.storage.setRepo root staged }, [])

end History

def histories (ofBytes : Content → BlobSha) (rules : GitRules) :
    Machine History OwnEvent (List (String × BlobSha)) := ⟨History.step ofBytes rules⟩

/-- A listing from the start shows the key. -/
def Listed {σ : Type} [AgentStorage σ] (storage : σ) (start key : String) : Prop :=
  ∃ cursor limit page, AgentStorage.list storage start cursor limit = .ok page ∧ key ∈ page.keys

/-- The manifest is what is listed, with the address of what is read there. -/
def Exact (ofBytes : Content → BlobSha) (storage : PerAgentGitStorage) (fs : AgentFs)
    (manifest : List (String × BlobSha)) : Prop :=
  ∀ rel sha, (rel, sha) ∈ manifest ↔ ∃ value, Listed storage (fs.key "") (fs.key rel) ∧
    AgentStorage.get storage (fs.key rel) = .ok (some value) ∧ ofBytes value = sha

/-- What has been written is in the manifest, and what has been deleted is not. -/
def Complete (ofBytes : Content → BlobSha) (state : History) (root : List Name)
    (manifest : List (String × BlobSha)) : Prop :=
  (∀ path value, root ++ path ∈ state.written → state.storage.data.tree.read (root ++ path) = some value →
    (joinPath path, ofBytes value) ∈ manifest) ∧
  ∀ path sha, (joinPath path, sha) ∈ manifest → (state.storage.data.tree.read (root ++ path)).isSome

/-- The file is tracked, or git's own walk comes to it and the callback lets it through. -/
def Taken (rules : GitRules) (storage : PerAgentGitStorage) (root path : List Name) : Prop :=
  (∀ name ∈ path, name.text ≠ ".git") ∧ (((storage.repos root).index.lookup path).isSome ∨
    Git.isTempfile path = false ∧ rules.admits (Git.work storage.data.tree root) path = true)

theorem histories_step (ofBytes : Content → BlobSha) (rules : GitRules) (state : History) (event : OwnEvent) :
    (histories ofBytes rules).step state event = state.step ofBytes rules event := rfl

section Keys

variable {graphId : GraphId} {agentId : AgentId}

theorem joinPath_append {first second : List Name} (top : first ≠ []) (bottom : second ≠ []) :
    joinPath (first ++ second) = joinPath first ++ "/" ++ joinPath second := by
  unfold joinPath
  rw [List.map_append, String.intercalate_append_of_ne_nil (by simpa using top) (by simpa using bottom)]

theorem joinPath_agentRoot (graphId : GraphId) (agentId : AgentId) :
    joinPath (agentRoot graphId agentId) = agentWorkflowId graphId.toString agentId.toString := by
  apply String.toList_inj.mp
  simp [joinPath, agentRoot, agentWorkflowId, graphsName, agentsName, idName, GraphId.toString, AgentId.toString]

theorem key_joinPath {path : List Name} (nonempty : path ≠ []) :
    (AgentFs.openForAgent graphId agentId).key (joinPath path) = joinPath (agentRoot graphId agentId ++ path) := by
  have top : agentRoot graphId agentId ≠ [] := List.cons_ne_nil _ _
  rw [joinPath_append top nonempty, joinPath_agentRoot, openForAgent_starts]
  rfl

theorem repoRoot_forAgent (graphId : GraphId) (agentId : AgentId) :
    PerAgentGitStorage.repoRoot (FsHandle.forAgent graphId agentId).storagePrefix = agentRoot graphId agentId := by
  unfold PerAgentGitStorage.repoRoot FsHandle.forAgent
  rw [← joinPath_agentRoot, keyPath_joinPath]

theorem scanRoot_agent (graphId : GraphId) (agentId : AgentId) :
    LocalStorage.scanRoot ((AgentFs.openForAgent graphId agentId).key "") = agentRoot graphId agentId := by
  have start : (AgentFs.openForAgent graphId agentId).key "" = joinPath (agentRoot graphId agentId) ++ "/" := by
    rw [openForAgent_starts, joinPath_agentRoot]
    exact String.append_empty
  rw [start, scanRoot_dir, keyPath_joinPath]

end Keys

/-- Every file is below the directory of some agent, and what has been written is there; no
temporary file is tracked. -/
structure History.Sound (state : History) : Prop where
  deep : ∀ path, (state.storage.data.tree.read path).isSome → ∃ graphId agentId below, below ≠ [] ∧
    path = agentRoot graphId agentId ++ below
  held : ∀ path ∈ state.written, (state.storage.data.tree.read path).isSome
  untracked : ∀ root path, ((state.storage.repos root).index.lookup path).isSome → Git.isTempfile path = false

section Invariant

variable {ofBytes : Content → BlobSha} {rules : GitRules} {state after : History}

theorem sound_start : History.start.Sound where
  deep path there := by
    change (FileTree.empty.read path).isSome at there
    rw [FileTree.read_empty] at there
    cases there
  held _ member := absurd member List.not_mem_nil
  untracked root path tracked := by cases tracked

/-- A file more, below an agent's directory. -/
theorem History.Sound.grow (sound : state.Sound) {data : LocalStorage} {file : OwnFile} {path below : List Name}
    {value : Content} (under : path = agentRoot file.graphId file.agentId ++ below) (proper : below ≠ [])
    (reads : ∀ other, data.tree.read other = if other = path then some value else state.storage.data.tree.read other)
    {written : List (List Name)} (noted : ∀ other ∈ written, other = path ∨ other ∈ state.written) :
    (⟨{ state.storage with data }, written⟩ : History).Sound where
  deep other there := by
    change (data.tree.read other).isSome at there
    rw [reads] at there
    split at there
    · rename_i same
      exact ⟨_, _, below, proper, same.trans under⟩
    · exact sound.deep other there
  held other member := by
    change (data.tree.read other).isSome
    rw [reads]
    split
    · rfl
    · rename_i differs
      exact sound.held other ((noted other member).resolve_left differs)
  untracked := sound.untracked

theorem History.Sound.stage (sound : state.Sound) {root : List Name} {repo : Repo}
    (index : ∀ path, (repo.index.lookup path).isSome →
      ((Git.stage ofBytes rules state.storage.data.tree root (state.storage.repos root)).index.lookup path).isSome) :
    ({ state with storage := state.storage.setRepo root repo } : History).Sound where
  deep := sound.deep
  held := sound.held
  untracked other path tracked := by
    unfold PerAgentGitStorage.setRepo at tracked
    simp only at tracked
    split at tracked
    · obtain ⟨sha, found⟩ := Option.isSome_iff_exists.mp (index path tracked)
      obtain ⟨content, -, -, before | ⟨plain, -⟩⟩ := Git.index_stage.mp found
      · exact sound.untracked root path before
      · exact plain
    · exact sound.untracked other path tracked

theorem stop_reads {file : OwnFile} {call : WriteCall} {left : Content}
    (stopped : state.stop file call left = some after) :
    ∃ data path below, after = { state with storage := { state.storage with data } } ∧
      path = agentRoot file.graphId file.agentId ++ below ∧ below ≠ [] ∧
      ∀ other, data.tree.read other = if other = path then some left else state.storage.data.tree.read other := by
  unfold History.stop at stopped
  split at stopped
  · cases stopped
  · rename_i name last
    split at stopped
    · cases stopped
    · rename_i made created
      split at stopped
      · cases stopped
      · rename_i tree opened
        cases stopped
        obtain ⟨rest, final, split⟩ := (keyPath file.rest).eq_nil_or_concat'.resolve_left file.below
        have dir : file.path.dropLast = agentRoot file.graphId file.agentId ++ rest := by
          unfold OwnFile.path
          rw [split, ← List.append_assoc, List.dropLast_concat]
        obtain ⟨-, lookups⟩ := FileTree.createNew_ok opened
        have named : ∃ written : Name, call.file file.path.dropLast name = file.path.dropLast ++ [written] := by
          cases call with
          | put pid counter => exact ⟨_, rfl⟩
          | putIfAbsent => exact ⟨_, rfl⟩
        obtain ⟨written, named⟩ := named
        refine ⟨⟨tree⟩, call.file file.path.dropLast name, rest ++ [written], rfl, ?_, by simp, ?_⟩
        · rw [named, dir, List.append_assoc]
        · intro other
          rw [← FileTree.read_createDirAll created]
          unfold FileTree.read
          rw [lookups other]
          split <;> rfl

theorem map_data {σ τ : Type} {answer : Except StorageError σ} {given : σ → τ} {after : τ}
    (mapped : answer.map given = .ok after) : ∃ data, answer = .ok data ∧ given data = after := by
  cases answer with
  | error error => cases mapped
  | ok data =>
    cases mapped
    exact ⟨data, rfl, rfl⟩

theorem read_put {data after : LocalStorage} {key : String} {value : Content} (put : data.put key value = .ok after)
    (other : List Name) : after.tree.read other = if other = keyPath key then some value else data.tree.read other := by
  unfold LocalStorage.put at put
  split at put
  · rename_i tree wrote
    cases put
    exact FileTree.read_write wrote other
  · cases put

theorem read_putIfAbsent {data after : LocalStorage} {key : String} {value : Content} {outcome : PutOutcome}
    (put : data.putIfAbsent key value = .ok (outcome, after)) (other : List Name) : after.tree.read other =
      if outcome = .created ∧ other = keyPath key then some value else data.tree.read other := by
  unfold LocalStorage.putIfAbsent at put
  split at put
  · cases put
  · rename_i made created
    rw [← FileTree.read_createDirAll created]
    split at put
    · rename_i tree opened
      cases put
      unfold FileTree.read
      rw [(FileTree.createNew_ok opened).2 other]
      by_cases here : other = keyPath key
      · rw [if_pos here, if_pos ⟨rfl, here⟩]
        rfl
      · rw [if_neg here, if_neg fun both => here both.2]
    · cases put
      refine (if_neg ?_).symm
      rintro ⟨⟨⟩, -⟩
    · cases put

theorem read_delete {data after : LocalStorage} {key : String} (deleted : data.delete key = .ok after)
    (other : List Name) : after.tree.read other = if other = keyPath key then none else data.tree.read other := by
  unfold LocalStorage.delete at deleted
  split at deleted
  · rename_i tree removed
    cases deleted
    exact FileTree.read_removeFile removed other
  · rename_i missing
    cases deleted
    have absent := FileTree.removeFile_error missing
    rw [if_pos rfl] at absent
    split
    · rename_i here
      rw [here]
      unfold FileTree.read
      rw [absent.1]
      rfl
    · rfl
  · cases deleted

theorem History.Sound.written (sound : state.Sound) {data : LocalStorage} (file : OwnFile) {value : Content}
    (reads : ∀ other, data.tree.read other =
      if other = keyPath file.key then some value else state.storage.data.tree.read other) :
    (⟨{ state.storage with data }, file.path :: state.written⟩ : History).Sound := by
  have under : file.path = agentRoot file.graphId file.agentId ++ keyPath file.rest := rfl
  rw [file.keyPath_key] at reads
  exact sound.grow under file.below reads fun other member => List.mem_cons.mp member

theorem sound_step {event : OwnEvent} {manifests : List (List (String × BlobSha))} (sound : state.Sound)
    (stepped : state.step ofBytes rules event = some (after, manifests)) : after.Sound := by
  cases event with
  | put file value =>
    unfold History.step at stepped
    simp only at stepped
    split at stepped
    · rename_i storage put
      cases stepped
      change (state.storage.data.put file.key value).map _ = _ at put
      obtain ⟨data, stored, rfl⟩ := map_data put
      exact sound.written file (read_put stored)
    · cases stepped
      exact sound
  | putIfAbsent file value =>
    unfold History.step at stepped
    simp only at stepped
    split at stepped
    · rename_i storage put
      cases stepped
      change (state.storage.data.putIfAbsent file.key value).map _ = _ at put
      obtain ⟨⟨outcome, data⟩, stored, same⟩ := map_data put
      cases same
      exact sound.written file fun other => (read_putIfAbsent stored other).trans (if_congr (and_iff_right rfl) rfl rfl)
    · rename_i storage put
      cases stepped
      change (state.storage.data.putIfAbsent file.key value).map _ = _ at put
      obtain ⟨⟨outcome, data⟩, stored, same⟩ := map_data put
      cases same
      have kept : data.tree.read = state.storage.data.tree.read :=
        funext fun other => (read_putIfAbsent stored other).trans (if_neg fun both => nomatch both.1)
      exact ⟨fun path there => sound.deep path (by rw [← kept]; exact there),
        fun path member => (congrArg (·.isSome) (congrFun kept path)).trans (sound.held path member), sound.untracked⟩
    · cases stepped
      exact sound
  | delete file =>
    unfold History.step at stepped
    simp only at stepped
    split at stepped
    · rename_i storage delete
      cases stepped
      change (state.storage.data.delete file.key).map _ = _ at delete
      obtain ⟨data, deleted, rfl⟩ := map_data delete
      have reads : ∀ other, data.tree.read other =
          if other = keyPath file.key then none else state.storage.data.tree.read other := read_delete deleted
      rw [file.keyPath_key] at reads
      constructor
      · intro path there
        change (data.tree.read path).isSome at there
        rw [reads] at there
        split at there
        · cases there
        · exact sound.deep path there
      · intro path member
        obtain ⟨before, other⟩ := List.mem_filter.mp member
        change (data.tree.read path).isSome
        rw [reads, if_neg (of_decide_eq_true other)]
        exact sound.held path before
      · exact sound.untracked
    · cases stepped
      exact sound
  | stopped file call left =>
    obtain ⟨next, stopped, shape⟩ := Option.map_eq_some_iff.mp stepped
    cases shape
    obtain ⟨data, path, below, rfl, under, proper, reads⟩ := stop_reads stopped
    exact sound.grow under proper reads fun _ => .inr
  | commit graphId agentId message =>
    cases stepped
    apply sound.stage
    intro path tracked
    rw [← Git.commitBlocking_index]
    exact tracked
  | stoppedCommit graphId agentId =>
    cases stepped
    exact sound.stage fun _ tracked => tracked

theorem sound_run {events : List OwnEvent} {manifests : List (List (String × BlobSha))}
    (ran : (histories ofBytes rules).run .start events = some (state, manifests)) : state.Sound :=
  (histories ofBytes rules).run_invariant History.Sound sound_start
    (fun _ _ _ _ sound stepped => sound_step sound stepped) ran

end Invariant

section Commit

variable {ofBytes : Content → BlobSha} {rules : GitRules} {state : History} {graphId : GraphId} {agentId : AgentId}

theorem mem_commit {agentPrefix message rel : String} {sha : BlobSha} {storage : PerAgentGitStorage} :
    (rel, sha) ∈ (storage.commit ofBytes rules agentPrefix message).1 ↔
      ∃ path value, joinPath path = rel ∧ path ≠ [] ∧ ofBytes value = sha ∧
        storage.data.tree.read (PerAgentGitStorage.repoRoot agentPrefix ++ path) = some value ∧
        Taken rules storage (PerAgentGitStorage.repoRoot agentPrefix) path := by
  have staged : (storage.commit ofBytes rules agentPrefix message).1 =
      Git.manifestFromTree (Git.writeTree (Git.stage ofBytes rules storage.data.tree
        (PerAgentGitStorage.repoRoot agentPrefix) (storage.repos (PerAgentGitStorage.repoRoot agentPrefix)))) :=
    Git.commitBlocking_manifest
  rw [staged, Git.mem_manifestFromTree]
  simp only [Git.index_stage, Git.mem_workFiles]
  constructor
  · intro ⟨path, named, value, ⟨proper, plain, read⟩, same, kept⟩
    exact ⟨path, value, named, proper, same, read, plain, kept⟩
  · intro ⟨path, value, named, proper, same, read, plain, kept⟩
    exact ⟨path, named, value, ⟨proper, plain, read⟩, same, kept⟩

theorem mem_commit_agent {message rel : String} {sha : BlobSha} {storage : PerAgentGitStorage} :
    (rel, sha) ∈ (storage.commit ofBytes rules (FsHandle.forAgent graphId agentId).storagePrefix message).1 ↔
      ∃ path value, joinPath path = rel ∧ path ≠ [] ∧ ofBytes value = sha ∧
        storage.data.tree.read (agentRoot graphId agentId ++ path) = some value ∧
        Taken rules storage (agentRoot graphId agentId) path := by
  rw [mem_commit, repoRoot_forAgent]

theorem History.Sound.directory (sound : state.Sound) (graphId : GraphId) (agentId : AgentId) :
    state.storage.data.tree.read (agentRoot graphId agentId) = none := by
  cases found : state.storage.data.tree.read (agentRoot graphId agentId) with
  | none => rfl
  | some value =>
    obtain ⟨graph, agent, below, proper, same⟩ := sound.deep _ (Option.isSome_iff_exists.mpr ⟨value, found⟩)
    have lengths := congrArg List.length same
    have := List.length_pos_iff.mpr proper
    simp only [agentRoot, List.length_append, List.length_cons, List.length_nil] at lengths
    omega

theorem listed_iff (sound : state.Sound) {key : String} :
    Listed state.storage ((AgentFs.openForAgent graphId agentId).key "") key ↔
      ∃ path, path ≠ [] ∧ key = (AgentFs.openForAgent graphId agentId).key (joinPath path) ∧
        (state.storage.data.tree.read (agentRoot graphId agentId ++ path)).isSome ∧
        Walked (agentRoot graphId agentId) (agentRoot graphId agentId ++ path) := by
  have apart : state.storage.data.tree.shape (LocalStorage.scanRoot ((AgentFs.openForAgent graphId agentId).key "")) ≠
      some .file := by
    rw [scanRoot_agent]
    exact FileTree.read_none_iff.mp (sound.directory graphId agentId)
  have among : Listed state.storage ((AgentFs.openForAgent graphId agentId).key "") key ↔
      key ∈ keysFrom state.storage.data ((AgentFs.openForAgent graphId agentId).key "") := by
    constructor
    · rintro ⟨cursor, limit, page, listed, member⟩
      cases (list_of_keys apart cursor limit).symm.trans listed
      exact ListPage.mem_keys_of member
    · intro member
      refine ⟨none, _, _, list_of_keys apart none
        ((keysFrom state.storage.data ((AgentFs.openForAgent graphId agentId).key "")).length + 1), ?_⟩
      apply ListPage.mem_of_short _ member
      simp [ListPage.of]
  rw [among, mem_keysFrom, scanRoot_agent]
  constructor
  · rintro ⟨whole, same, file, walked, -⟩
    obtain ⟨path, rfl⟩ := walked.below
    have proper : path ≠ [] := by
      rintro rfl
      rw [List.append_nil] at file
      exact FileTree.read_none_iff.mp (sound.directory graphId agentId) file
    exact ⟨path, proper, same.trans (key_joinPath proper).symm, FileTree.isSome_read.mpr file, walked⟩
  · rintro ⟨path, proper, same, file, walked⟩
    refine ⟨_, same.trans (key_joinPath proper), FileTree.isSome_read.mp file, walked, ?_⟩
    rw [same]
    unfold AgentFs.key
    rw [String.append_empty]
    exact startsWithText_append _ _

/-- A file that git takes is one that a listing shows. -/
theorem Taken.walked (sound : state.Sound) {path : List Name}
    (taken : Taken rules state.storage (agentRoot graphId agentId) path) (proper : path ≠ []) : Walked (agentRoot graphId agentId) (agentRoot graphId agentId ++ path) where
  below := List.prefix_append _ _
  entered name member := by
    rw [List.drop_left] at member
    exact taken.1 name (List.dropLast_subset _ member)
  listed name last := by
    have plain : Git.isTempfile path = false := taken.2.elim (sound.untracked _ path) And.left
    rw [List.getLast?_append_of_ne_nil _ proper] at last
    unfold Git.isTempfile at plain
    rw [last] at plain
    exact plain

theorem key_inj {fs : AgentFs} {first second : String} (same : fs.key first = fs.key second) : first = second := by
  have whole := congrArg String.toList same
  unfold AgentFs.key at whole
  rw [String.toList_append, String.toList_append] at whole
  exact String.toList_inj.mp (List.append_cancel_left whole)

theorem get_agent {storage : PerAgentGitStorage} {path : List Name} {value : Content}
    (read : storage.data.tree.read (agentRoot graphId agentId ++ path) = some value) :
    AgentStorage.get storage ((AgentFs.openForAgent graphId agentId).key (joinPath path)) = .ok (some value) := by
  change storage.data.get _ = _
  unfold LocalStorage.get
  have place : keyPath ((AgentFs.openForAgent graphId agentId).key (joinPath path)) = agentRoot graphId agentId ++ path := by
    rw [keyPath_agent, keyPath_joinPath]
    rfl
  rw [place]
  unfold FileTree.read at read
  obtain ⟨entry, found, content⟩ := Option.bind_eq_some_iff.mp read
  cases entry with
  | dir => cases content
  | file held =>
    cases content
    rw [FileTree.resolve_file found]

theorem exact_iff (sound : state.Sound) (message : String) :
    Exact ofBytes state.storage (.openForAgent graphId agentId)
        (state.storage.commit ofBytes rules (FsHandle.forAgent graphId agentId).storagePrefix message).1 ↔
      ∀ path, Listed state.storage ((AgentFs.openForAgent graphId agentId).key "")
          ((AgentFs.openForAgent graphId agentId).key (joinPath path)) →
        Taken rules state.storage (agentRoot graphId agentId) path := by
  constructor
  · intro exact_ path listed
    obtain ⟨other, proper, same, there, walked⟩ := (listed_iff sound).mp listed
    cases joinPath_injective (key_inj same)
    obtain ⟨value, read⟩ := Option.isSome_iff_exists.mp there
    have member := (exact_ (joinPath path) (ofBytes value)).mpr ⟨value, listed, get_agent read, rfl⟩
    obtain ⟨other, _, named, -, -, -, taken⟩ := mem_commit_agent.mp member
    cases joinPath_injective named
    exact taken
  · intro all rel sha
    rw [mem_commit_agent]
    constructor
    · intro ⟨path, value, named, proper, same, read, taken⟩
      cases named
      refine ⟨value, ?_, get_agent read, same⟩
      exact (listed_iff sound).mpr ⟨path, proper, rfl, Option.isSome_iff_exists.mpr ⟨value, read⟩, taken.walked sound proper⟩
    · intro ⟨value, listed, got, same⟩
      obtain ⟨path, proper, named, there, -⟩ := (listed_iff sound).mp listed
      cases key_inj named
      obtain ⟨found, read⟩ := Option.isSome_iff_exists.mp there
      cases (get_agent read).symm.trans got
      exact ⟨path, value, rfl, proper, same, read, all path listed⟩

theorem complete_iff (sound : state.Sound) (message : String) :
    Complete ofBytes state (agentRoot graphId agentId)
        (state.storage.commit ofBytes rules (FsHandle.forAgent graphId agentId).storagePrefix message).1 ↔
      ∀ path, agentRoot graphId agentId ++ path ∈ state.written →
        Taken rules state.storage (agentRoot graphId agentId) path := by
  constructor
  · intro ⟨kept, _⟩ path written
    obtain ⟨value, read⟩ := Option.isSome_iff_exists.mp (sound.held _ written)
    obtain ⟨other, _, named, -, -, -, taken⟩ := mem_commit_agent.mp (kept path value written read)
    cases joinPath_injective named
    exact taken
  · intro all
    constructor
    · intro path value written read
      have proper : path ≠ [] := by
        rintro rfl
        rw [List.append_nil, sound.directory] at read
        cases read
      exact mem_commit_agent.mpr ⟨path, value, rfl, proper, rfl, read, all path written⟩
    · intro path sha member
      obtain ⟨other, value, named, -, -, read, -⟩ := mem_commit_agent.mp member
      cases joinPath_injective named
      exact Option.isSome_iff_exists.mpr ⟨value, read⟩

/-- What git's walk leaves out, the storage's own walk does not. -/
theorem commit_versions_iff {events : List OwnEvent} {manifests : List (List (String × BlobSha))}
    (ran : (histories ofBytes rules).run .start events = some (state, manifests)) (graphId : GraphId) (agentId : AgentId)
    (message : String) :
    (Exact ofBytes state.storage (.openForAgent graphId agentId)
        (state.storage.commit ofBytes rules (FsHandle.forAgent graphId agentId).storagePrefix message).1 ↔
      ∀ path, Listed state.storage ((AgentFs.openForAgent graphId agentId).key "")
          ((AgentFs.openForAgent graphId agentId).key (joinPath path)) →
        Taken rules state.storage (agentRoot graphId agentId) path) ∧
    (Complete ofBytes state (agentRoot graphId agentId)
        (state.storage.commit ofBytes rules (FsHandle.forAgent graphId agentId).storagePrefix message).1 ↔
      ∀ path, agentRoot graphId agentId ++ path ∈ state.written →
        Taken rules state.storage (agentRoot graphId agentId) path) :=
  ⟨exact_iff (sound_run ran) message, complete_iff (sound_run ran) message⟩

end Commit

section Examples

/-- A `.gitignore` of plain names, one on a line, and a directory with an entry `.git`. -/
private def plainRules : GitRules where
  ignored work path := path.inits.any fun dir =>
    match work (dir ++ [⟨".gitignore", by decide⟩]) with
    | some (.file (.text body)) => (lines body).any fun line => (path.drop dir.length).any (·.text == line)
    | _ => false
  nested work dir := (work (dir ++ [⟨".git", by decide⟩])).isSome

private def lax : GitRules := ⟨fun _ _ => false, fun _ _ => false⟩

private def firstSha (_ : Content) : BlobSha := ⟨"fe4f02ad058b43f6ed467fdf65b935107529564b"⟩

private def printery : GraphId := ⟨⟨0⟩⟩

private def author : AgentId := ⟨⟨1⟩⟩

private def draftName : Name := ⟨"draft.md", by decide⟩

private def draftPath : List Name := [notesName, draftName]

private theorem draft_path : keyPath "notes/draft.md" = draftPath := by decide

private def draft : OwnFile := ⟨printery, author, "notes/draft.md", notesName, [draftName], draft_path, by decide⟩

private theorem step_put {state : History} {storage : PerAgentGitStorage} {file : OwnFile} {value : Content}
    (put : AgentStorage.put state.storage file.key value = .ok storage) :
    (histories firstSha lax).step state (.put file value) = some (⟨storage, file.path :: state.written⟩, []) := by
  rw [histories_step]
  unfold History.step
  simp only [put]

private theorem empty_put (file : OwnFile) (value : Content) : ∃ state,
    (histories firstSha lax).run .start [.put file value] = some (state, []) ∧ state.written = [file.path] ∧
      ∀ other, (state.storage.data.tree.read other).isSome → other = file.path := by
  have clear : (FileTree.empty : FileTree Name Content).shape.clear (keyPath file.key) = true := by
    have vacant : (FileTree.empty : FileTree Name Content).lookup (keyPath file.key) = none := by
      rw [FileTree.lookup_empty, if_neg]
      rw [file.keyPath_key]
      exact List.cons_ne_nil _ _
    have unblocked := FileTree.blocked_of_absent vacant
    have free : (FileTree.empty : FileTree Name Content).shape.blocked (keyPath file.key) = false := by
      rw [Bool.eq_false_iff]
      intro blocked
      obtain ⟨above, -, there⟩ := Shape.blocked_iff.mp blocked
      exact FileTree.read_none_iff.mp (FileTree.read_empty above) there
    rw [free] at unblocked
    simpa using unblocked
  obtain ⟨tree, wrote⟩ := FileTree.write_clear clear value
  have put : AgentStorage.put PerAgentGitStorage.new file.key value = .ok { PerAgentGitStorage.new with data := ⟨tree⟩ } := by
    change (LocalStorage.put ⟨.empty⟩ file.key value).map _ = _
    unfold LocalStorage.put
    rw [wrote]
    rfl
  refine ⟨⟨{ PerAgentGitStorage.new with data := ⟨tree⟩ }, [file.path]⟩, ?_, rfl, ?_⟩
  · exact (histories firstSha lax).run_cons.mpr ⟨_, [], [], step_put put, Machine.run_nil _ _, rfl⟩
  · intro other there
    change (tree.read other).isSome at there
    rw [FileTree.read_write wrote, FileTree.read_empty] at there
    split at there
    · rename_i same
      rw [same, file.keyPath_key]
    · cases there

theorem commit_versions_iff_draft : ∃ state,
    (histories firstSha lax).run .start [.put draft (.text "first")] = some (state, []) ∧
    Exact firstSha state.storage (.openForAgent printery author)
      (state.storage.commit firstSha lax (FsHandle.forAgent printery author).storagePrefix "tick 0").1 ∧
    Complete firstSha state (agentRoot printery author)
      (state.storage.commit firstSha lax (FsHandle.forAgent printery author).storagePrefix "tick 0").1 := by
  obtain ⟨state, ran, written, only⟩ := empty_put draft (.text "first")
  have drafted : ∀ path, agentRoot printery author ++ path = draft.path → path = draftPath := by
    intro path same
    exact (List.append_cancel_left same).trans draft_path
  have taken : Taken lax state.storage (agentRoot printery author) draftPath := ⟨by decide, .inr ⟨by decide +kernel, rfl⟩⟩
  obtain ⟨listed, kept⟩ := commit_versions_iff ran printery author "tick 0"
  refine ⟨state, ran, listed.mpr fun path shown => ?_, kept.mpr fun path member => ?_⟩
  · obtain ⟨other, -, same, there, -⟩ := (listed_iff (sound_run ran)).mp shown
    rw [joinPath_injective (key_inj same), drafted other (only _ there)]
    exact taken
  · rw [written] at member
    rw [drafted path (List.mem_singleton.mp member)]
    exact taken

private def disk : String := "graphs/g/agents/a"

private def secretive : Except FsError Unit × PerAgentGitStorage :=
  (AgentFs.attach disk).applyOps (fun _ => ⟨0⟩)
    [.writeFile "notes/.gitignore" "draft.md", .writeFile "notes/draft.md" "first"] .new

private theorem secretive_reads : secretive.1 = .ok () ∧
    ((AgentStorage.list secretive.2 ((AgentFs.attach disk).key "") none 9).toOption.map
      (·.keys.contains ((AgentFs.attach disk).key "notes/draft.md"))) = some true ∧
    AgentStorage.get secretive.2 ((AgentFs.attach disk).key "notes/draft.md") = .ok (some (.text "first")) ∧
    ((secretive.2.repos (PerAgentGitStorage.repoRoot disk)).index.lookup draftPath).isSome = false ∧
    plainRules.admits (Git.work secretive.2.data.tree (PerAgentGitStorage.repoRoot disk)) draftPath = false := by
  decide +kernel

/-- A note that another note has git ignore is listed, and in no commit. -/
theorem ignored_note : secretive.1 = .ok () ∧ ∀ ofBytes, ¬ Exact ofBytes secretive.2 (.attach disk)
    (secretive.2.commit ofBytes plainRules disk "tick 0").1 := by
  obtain ⟨accepted, shown, got, untracked, left⟩ := secretive_reads
  refine ⟨accepted, fun ofBytes exact_ => ?_⟩
  have listed : Listed secretive.2 ((AgentFs.attach disk).key "") ((AgentFs.attach disk).key "notes/draft.md") := by
    obtain ⟨page, found, among⟩ := Option.map_eq_some_iff.mp shown
    cases answer : AgentStorage.list secretive.2 ((AgentFs.attach disk).key "") none 9 with
    | error error =>
      rw [answer] at found
      cases found
    | ok other =>
      rw [answer] at found
      cases found
      exact ⟨none, 9, page, answer, List.contains_iff_mem.mp among⟩
  obtain ⟨path, value, named, -, -, -, taken⟩ := mem_commit.mp ((exact_ _ _).mpr ⟨_, listed, got, rfl⟩)
  obtain rfl : path = draftPath := joinPath_injective (named.trans (show "notes/draft.md" = joinPath draftPath by decide))
  rcases taken.2 with tracked | ⟨-, admitted⟩
  · rw [untracked] at tracked
    cases tracked
  · rw [left] at admitted
    cases admitted

end Examples

end Coral.Proofs

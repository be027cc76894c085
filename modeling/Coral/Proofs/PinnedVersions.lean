import Coral.Proofs.AgentKeyspace
import Coral.Proofs.CitationForgery

/-! Versions that citations pin, beside what the agents' repositories hold. A pin is taken
when an output is persisted, and its bytes are stored only by a commit of the agent cited. -/

namespace Coral.Proofs
open Coral.Library Coral.Temporal LawfulStorage

section Files

variable {σ : Type} [AgentStorage σ] [LawfulStorage σ] {codec : Codec} {graphId : GraphId} {agentId : AgentId}
  {storage after : σ} {made : AgentId → String → EvidenceRecord → Prop}

/-- The output gets past the gate. -/
def PassesGate (graphId : GraphId) (agentId : AgentId) (storage : σ) (citations : List String) : Prop :=
  citations ≠ [] ∧ ∀ path ∈ citations, (citedBytes (.openForAgent graphId agentId) storage path).isSome = true

/-- A record that is there stays. -/
theorem Adds.stays (adds : Adds graphId made storage after) {path : String} {bytes : Content}
    (found : citedBytes (.openForAgent graphId agentId) storage path = some bytes) :
    citedBytes (.openForAgent graphId agentId) after path = some bytes := by
  rcases adds.cited agentId path with same | ⟨_, -, -, empty, -⟩
  · rw [same, found]
  · rw [found] at empty
    cases empty

/-- One that is new has a name that evidence comes to. -/
theorem Adds.named (adds : Adds graphId made storage after) {path : String} {bytes : Content}
    (found : citedBytes (.openForAgent graphId agentId) after path = some bytes) :
    citedBytes (.openForAgent graphId agentId) storage path = some bytes ∨
      ∃ observed : Observed, AgentFs.evidenceRelpathChecked path = .ok observed.relpath := by
  rcases adds.cited agentId path with same | ⟨observed, checked, -⟩
  · exact .inl (same ▸ found)
  · exact .inr ⟨observed, checked⟩

/-- Short of the gate nothing is persisted. Past it the output is replaced, and nothing else. -/
theorem persistOutputImpl_cases {δ : Type} [StructuralDbStore δ] {clock : Clock} {body : String} {citations : List String}
    {before final : δ} {result : Except PersistError OutputId}
    (ran : persistOutputImpl codec clock agentId (FsHandle.forAgent graphId agentId).storagePrefix body citations storage
      before = (result, after, final)) :
    Adds graphId made storage after ∧ final = before ∨
      PassesGate graphId agentId storage citations ∧ ∃ opened, Adds graphId made storage opened ∧
        Sets opened after ((AgentFs.openForAgent graphId agentId).key CANONICAL_OUTPUT) (some (.text body)) := by
  unfold persistOutputImpl at ran
  generalize opening : AgentFs.openWithStorage (FsHandle.forAgent graphId agentId).storagePrefix (.new "" ⟨0⟩ none) clock
    storage = ended at ran
  obtain ⟨outcome, opened⟩ := ended
  obtain ⟨adds, agent⟩ := adds_open opening
  cases outcome with
  | error error =>
    cases ran
    exact .inl ⟨adds, rfl⟩
  | ok fs =>
    obtain rfl := agent fs rfl
    simp only at ran
    cases persisted : (AgentFs.openForAgent graphId agentId).persistOutput body citations opened with
    | error error =>
      rw [persisted] at ran
      cases ran
      exact .inl ⟨adds, rfl⟩
    | ok written =>
      obtain ⟨present, put⟩ := persistOutput_ok through_id persisted
      have accepted : PassesGate graphId agentId storage citations := by
        constructor
        · rintro rfl
          cases persisted
        · intro path member
          rw [← sameEvidence_open opening]
          exact present path member
      rw [persisted] at ran
      have last : after = written := by
        simp only at ran
        split at ran
        · cases ran
          rfl
        · split at ran <;> cases ran <;> rfl
      rw [last]
      exact .inr ⟨accepted, opened, adds, (put_spec put).2⟩

/-- A version that a citation of the agent comes to. -/
def VersionCited (codec : Codec) (graphId : GraphId) (agentId : AgentId) (storage : σ) (citations : List String)
    (cited : AgentId) (sha : BlobSha) : Prop :=
  ∃ path ∈ citations, ∃ bytes filepath, citedBytes (.openForAgent graphId agentId) storage path = some bytes ∧
    resolveRecord codec agentId path bytes = .ok (cited, filepath, sha)

/-- What an activity does to outputs and rows: it leaves both as they are, or it replaces the
agent's own output and adds rows of the versions that it cites. -/
theorem step_cases (codec : Codec) (graphId : GraphId) (state : Workspace σ) (event : Scheduled) :
    (∃ made, Adds graphId made state.files (state.step codec graphId event).files) ∧
        (state.step codec graphId event).db.citations = state.db.citations ∨
      ∃ body citations, event.activity = .persistOutput body citations ∧
        PassesGate graphId event.agentId state.files citations ∧
        (∃ made opened, Adds graphId made state.files opened ∧ Sets opened (state.step codec graphId event).files
          ((AgentFs.openForAgent graphId event.agentId).key CANONICAL_OUTPUT) (some (.text body))) ∧
        ∀ row ∈ (state.step codec graphId event).db.citations, row ∈ state.db.citations ∨
          VersionCited codec graphId event.agentId state.files citations row.citedAgentId row.citedBlobSha := by
  by_cases persists : ∃ body citations, event.activity = .persistOutput body citations
  · obtain ⟨agentId, activity, clock, writes, calls⟩ := event
    obtain ⟨body, citations, rfl⟩ := persists
    generalize ran : persistOutputImpl codec clock agentId (FsHandle.forAgent graphId agentId).storagePrefix body citations
      (⟨state.files, writes, []⟩ : Stopping σ) (⟨state.db, calls⟩ : FaultyDb) = ended
    obtain ⟨result, after, final⟩ := ended
    have stepped : (state.step codec graphId ⟨agentId, .persistOutput body citations, clock, writes, calls⟩).files =
        after.storage ∧ (state.step codec graphId ⟨agentId, .persistOutput body citations, clock, writes, calls⟩).db =
          final.db := by
      unfold Workspace.step
      simp only [ran]
      trivial
    rcases @persistOutputImpl_cases _ _ _ _ _ _ _ _ (fun _ _ _ => False) _ _ _ _ _ _ _ _ ran with
      ⟨adds, same⟩ | ⟨passes, opened, adds, sets⟩
    · left
      rw [stepped.1, stepped.2, same]
      exact ⟨⟨_, adds.stopping⟩, rfl⟩
    · refine .inr ⟨body, citations, rfl, passes, ⟨_, opened.storage, adds.stopping, ?_⟩, ?_⟩
      · rw [stepped.1]
        exact sets
      · intro row member
        by_cases earlier : row ∈ state.db.citations
        · exact .inl earlier
        · obtain ⟨_, _, path, bytes, same, among, citing, -, found, resolved⟩ := cited_row earlier member
          cases same
          rw [citing] at found resolved
          exact .inr ⟨path, among, bytes, _, found, resolved⟩
  · refine .inl ⟨⟨_, adds_step state event fun body citations same => persists ⟨body, citations, same⟩⟩, ?_⟩
    obtain ⟨agentId, activity, clock, writes, calls⟩ := event
    cases activity with
    | persistOutput body citations => exact (persists ⟨body, citations, rfl⟩).elim
    | registerChild childAgentName childTools childAgentId =>
      exact (@registerChildImpl_keeps graphId agentId childAgentId childAgentName childTools ⟨state.db, calls⟩ _ _ rfl).1
    | _ => rfl

end Files

/-- A graph's agents over `PerAgentGitStorage`, which leaves all but commits to the files. The
last two are the agents on their way out, and every version that a path has held since the
last commit of its agent. -/
structure Archive where
  workspace : Workspace LocalStorage
  repos : List Name → Repo
  retired : List AgentId
  uncommitted : List (List Name × BlobSha)

/-- A commit may stop once it has staged the files. A continue-as-new writes nothing. -/
inductive ArchiveEvent where
  | activity (event : Scheduled)
  | commitTick (agentId : AgentId) (tick : UInt64)
  | stoppedCommit (agentId : AgentId)

def Scheduled.retires (event : Scheduled) : Bool :=
  match event.activity with
  | .persistRetirement _ _ => true
  | _ => false

/-- The files that are not as they were. -/
def rewritten (ofBytes : Content → BlobSha) (before after : LocalStorage) : List (List Name × BlobSha) :=
  after.tree.files.filterMap fun path =>
    if after.tree.read path = before.tree.read path then none
    else (after.tree.read path).map fun content => (path, ofBytes content)

namespace Archive

variable (codec : Codec) (rules : GitRules) (graphId : GraphId)

/-- Nothing is committed yet. -/
def start (files : LocalStorage) (db : StructuralDb) : Archive :=
  ⟨⟨files, db, []⟩, fun _ => .init, [], rewritten codec.ofBytes ⟨.empty⟩ files⟩

def storage (state : Archive) : PerAgentGitStorage := ⟨state.workspace.files, state.repos⟩

def perform (state : Archive) (event : Scheduled) : Archive :=
  let workspace := state.workspace.step codec graphId event
  { state with
    workspace
    retired := if event.retires then event.agentId :: state.retired else state.retired
    uncommitted := rewritten codec.ofBytes state.workspace.files workspace.files ++ state.uncommitted }

/-- An agent on its way out has no other activity. -/
def step (state : Archive) : ArchiveEvent → Option (Archive × List Unit)
  | .activity event =>
    if event.agentId ∈ state.retired ∧ event.retires = false then none else some (state.perform codec graphId event, [])
  | .commitTick agentId tick =>
    let after := commitTickImpl codec.ofBytes rules state.storage (FsHandle.forAgent graphId agentId).storagePrefix tick
    some ({ state with
      repos := after.repos
      uncommitted := state.uncommitted.filter fun entry => ¬ agentRoot graphId agentId <+: entry.1 }, [])
  | .stoppedCommit agentId =>
    let root := agentRoot graphId agentId
    let staged := Git.stage codec.ofBytes rules state.workspace.files.tree root (state.repos root)
    some ({ state with repos := (state.storage.setRepo root staged).repos }, [])

/-- The version is read back from the agent's repository. -/
def Stored (state : Archive) (agentId : AgentId) (sha : BlobSha) : Prop :=
  ∃ bytes, state.storage.readAt (FsHandle.forAgent graphId agentId).storagePrefix sha = some bytes ∧
    codec.ofBytes bytes = sha

/-- Each cycle in which the agent has written the version is committed, or there is no more to come. -/
def Due (state : Archive) (agentId : AgentId) (sha : BlobSha) : Prop :=
  (∀ path, (agentRoot graphId agentId ++ path, sha) ∉ state.uncommitted) ∨ agentId ∈ state.retired

def Resolvable (state : Archive) : Prop :=
  ∀ row ∈ state.workspace.db.citations, state.Due graphId row.citedAgentId row.citedBlobSha →
    state.Stored codec graphId row.citedAgentId row.citedBlobSha

/-- Each agent's canonical output. -/
def outputs (state : Archive) (agentId : AgentId) : Option Content :=
  viewAt state.workspace.files ((AgentFs.openForAgent graphId agentId).key CANONICAL_OUTPUT)

/-- The version is stored, or still among the files of an agent that goes on: a record, or its output. -/
def Keeps (state : Archive) (outputs : AgentId → Option Content) (agentId : AgentId) (sha : BlobSha) : Prop :=
  state.Stored codec graphId agentId sha ∨ agentId ∉ state.retired ∧ ∃ bytes, codec.ofBytes bytes = sha ∧
    (outputs agentId = some bytes ∨
      ∃ path, citedBytes (.openForAgent graphId agentId) state.workspace.files path = some bytes)

/-- An output takes the place of another only where what is pinned, or is cited now, is kept.
An agent retires only where all that is pinned of it is from cycles that are committed, or is
stored by an earlier one. -/
def Careful (state : Archive) : ArchiveEvent → Prop
  | .activity event =>
    match event.activity with
    | .persistOutput body citations => PassesGate graphId event.agentId state.workspace.files citations →
      let replaced := Function.update (state.outputs graphId) event.agentId (some (.text body))
      (∀ row ∈ state.workspace.db.citations, state.Keeps codec graphId replaced row.citedAgentId row.citedBlobSha) ∧
        ∀ agentId sha, VersionCited codec graphId event.agentId state.workspace.files citations agentId sha →
          state.Keeps codec graphId replaced agentId sha
    | .persistRetirement _ _ => ∀ row ∈ state.workspace.db.citations, row.citedAgentId = event.agentId →
      (∀ path, (agentRoot graphId event.agentId ++ path, row.citedBlobSha) ∉ state.uncommitted) ∨
        state.Stored codec graphId event.agentId row.citedBlobSha
    | _ => True
  | _ => True

end Archive

def archive (codec : Codec) (rules : GitRules) (graphId : GraphId) : Machine Archive ArchiveEvent Unit :=
  ⟨Archive.step codec rules graphId⟩

section Committing

/-- Git takes what is there, unless a rule is against it. -/
def Committable (path : List Name) : Prop :=
  path ≠ [] ∧ (∀ name ∈ path, name.text ≠ ".git") ∧ Git.isTempfile path = false

theorem committable_output : Committable (keyPath CANONICAL_OUTPUT) := by
  refine ⟨by decide, by decide, by decide +kernel⟩

theorem committable_evidence (observed : Observed) : Committable (keyPath observed.relpath) := by
  obtain ⟨body, path, words⟩ := relpath_word observed
  obtain ⟨name, text, -⟩ := word_name words
  have parts : keyPath observed.relpath = [evidenceName, name] := by
    rw [path, ← text, show "evidence/" = evidenceName.text ++ "/" from rfl, keyPath_dir]
    exact congrArg _ (keyPath_joinPath [name])
  rw [parts]
  refine ⟨List.cons_ne_nil _ _, ?_, ?_⟩
  · intro other member
    rcases List.mem_cons.mp member with rfl | last
    · decide
    · rw [List.mem_singleton.mp last, text]
      intro same
      have lengths := congrArg (fun text : String => text.toList.length) same
      simp only [String.toList_append, String.toList_ofList, List.length_append] at lengths
      have ending : ".json".toList.length = 5 := rfl
      have short : ".git".toList.length = 4 := rfl
      omega
  · unfold Git.isTempfile
    rw [List.getLast?_cons_cons, List.getLast?_singleton, Option.any_some, text]
    exact word_lasting words

variable {codec : Codec} {rules : GitRules} {graphId : GraphId} {before after : LocalStorage}

theorem read_agent (files : LocalStorage) (agentId : AgentId) (rest : String) :
    files.tree.read (agentRoot graphId agentId ++ keyPath rest) =
      viewAt files ((AgentFs.openForAgent graphId agentId).key rest) := by
  change _ = files.tree.read (keyPath ((AgentFs.openForAgent graphId agentId).key rest))
  rw [keyPath_agent]
  rfl

theorem length_agentRoot (agentId : AgentId) : (agentRoot graphId agentId).length = 4 := rfl

theorem mem_rewritten {path : List Name} {bytes : Content} (read : after.tree.read path = some bytes) :
    before.tree.read path = some bytes ∨ (path, codec.ofBytes bytes) ∈ rewritten codec.ofBytes before after := by
  by_cases same : after.tree.read path = before.tree.read path
  · exact .inl (same ▸ read)
  · right
    unfold rewritten
    rw [List.mem_filterMap]
    refine ⟨path, FileTree.mem_files.mpr (FileTree.isSome_read.mp (by rw [read]; rfl)), ?_⟩
    rw [if_neg same, read]
    rfl

end Committing

namespace Archive

variable {codec : Codec} {rules : GitRules} {graphId : GraphId} {state : Archive}

/-- Every repository goes by addresses. What git would take is in it, or has been written since,
and so is what is pinned as long as its agent goes on. -/
structure Sound (codec : Codec) (graphId : GraphId) (state : Archive) : Prop where
  addressed : ∀ root, (state.repos root).Addressed codec.ofBytes
  named : ∀ agentId path bytes, citedBytes (.openForAgent graphId agentId) state.workspace.files path = some bytes →
    ∃ observed : Observed, AgentFs.evidenceRelpathChecked path = .ok observed.relpath
  tracked : ∀ agentId path bytes, Committable path →
    state.workspace.files.tree.read (agentRoot graphId agentId ++ path) = some bytes →
      state.Stored codec graphId agentId (codec.ofBytes bytes) ∨
        (agentRoot graphId agentId ++ path, codec.ofBytes bytes) ∈ state.uncommitted
  kept : ∀ row ∈ state.workspace.db.citations,
    state.Keeps codec graphId (state.outputs graphId) row.citedAgentId row.citedBlobSha

theorem stored_iff {agentId : AgentId} {sha : BlobSha} : state.Stored codec graphId agentId sha ↔
    ∃ bytes, (state.repos (agentRoot graphId agentId)).objects.lookup sha = some bytes ∧ codec.ofBytes bytes = sha := by
  unfold Stored PerAgentGitStorage.readAt
  rw [repoRoot_forAgent]
  exact Iff.rfl

theorem Sound.resolvable (sound : state.Sound codec graphId) : state.Resolvable codec graphId := by
  intro row member due
  rcases sound.kept row member with stored | ⟨active, bytes, same, there⟩
  · exact stored
  · obtain ⟨path, committable, read⟩ : ∃ path, Committable path ∧
        state.workspace.files.tree.read (agentRoot graphId row.citedAgentId ++ path) = some bytes := by
      rcases there with output | ⟨path, found⟩
      · exact ⟨_, committable_output, (read_agent _ _ _).trans output⟩
      · obtain ⟨observed, checked⟩ := sound.named _ path bytes found
        unfold citedBytes at found
        rw [checked] at found
        exact ⟨_, committable_evidence observed, (read_agent _ _ _).trans found⟩
    rcases due with committed | retired
    · rcases sound.tracked _ path bytes committable read with stored | unstored
      · exact same ▸ stored
      · exact (committed path (same ▸ unstored)).elim
    · exact (active retired).elim

theorem Stored.grow {next : Archive} (grows : ∀ root, (state.repos root).Grows codec.ofBytes (next.repos root))
    {agentId : AgentId} {sha : BlobSha} (stored : state.Stored codec graphId agentId sha) :
    next.Stored codec graphId agentId sha := by
  obtain ⟨bytes, found, same⟩ := stored_iff.mp stored
  exact stored_iff.mpr ⟨bytes, (grows _).kept _ _ found, same⟩

/-- A repository that grows keeps what there was, as long as what it lets go of is stored. -/
theorem Sound.grow (sound : state.Sound codec graphId) {next : Archive} (same : next.workspace = state.workspace)
    (still : next.retired = state.retired) (grows : ∀ root, (state.repos root).Grows codec.ofBytes (next.repos root))
    (dropped : ∀ agentId path bytes, Committable path →
      state.workspace.files.tree.read (agentRoot graphId agentId ++ path) = some bytes →
      (agentRoot graphId agentId ++ path, codec.ofBytes bytes) ∈ state.uncommitted →
      (agentRoot graphId agentId ++ path, codec.ofBytes bytes) ∉ next.uncommitted →
      next.Stored codec graphId agentId (codec.ofBytes bytes)) : next.Sound codec graphId where
  addressed root := (grows root).addressed (sound.addressed root)
  named := by
    rw [same]
    exact sound.named
  tracked agentId path bytes committable read := by
    rw [same] at read
    rcases sound.tracked agentId path bytes committable read with stored | unstored
    · exact .inl (stored.grow grows)
    · by_cases kept : (agentRoot graphId agentId ++ path, codec.ofBytes bytes) ∈ next.uncommitted
      · exact .inr kept
      · exact .inl (dropped agentId path bytes committable read unstored kept)
  kept row member := by
    rw [same] at member
    rcases sound.kept row member with stored | ⟨active, bytes, address, there⟩
    · exact .inl (stored.grow grows)
    · refine .inr ⟨by rwa [still], bytes, address, ?_⟩
      unfold outputs
      rw [same]
      exact there

theorem setRepo_repos (root : List Name) (repo : Repo) (other : List Name) :
    (state.storage.setRepo root repo).repos other = if other = root then repo else state.repos other := rfl

/-- One agent's repository grows. -/
theorem grows_setRepo {root : List Name} {repo : Repo} (grows : (state.repos root).Grows codec.ofBytes repo)
    (other : List Name) : (state.repos other).Grows codec.ofBytes ((state.storage.setRepo root repo).repos other) := by
  rw [setRepo_repos]
  split
  · rename_i here
    rw [here]
    exact grows
  · exact .refl _

/-- What a tick's commit leaves in the repository of its agent. -/
def committed (codec : Codec) (rules : GitRules) (graphId : GraphId) (state : Archive) (agentId : AgentId) (tick : UInt64) :
    Repo :=
  (Git.commitBlocking codec.ofBytes rules state.workspace.files.tree (agentRoot graphId agentId)
    ("tick " ++ toString tick.toNat) (state.repos (agentRoot graphId agentId))).2

theorem commitTick_repos (agentId : AgentId) (tick : UInt64) :
    (commitTickImpl codec.ofBytes rules state.storage (FsHandle.forAgent graphId agentId).storagePrefix tick).repos =
      (state.storage.setRepo (agentRoot graphId agentId) (state.committed codec rules graphId agentId tick)).repos := by
  unfold commitTickImpl PerAgentGitStorage.commit
  rw [repoRoot_forAgent]
  rfl

theorem stored_committed (stores : ∀ work path, rules.admits work path = true) {agentId : AgentId} {tick : UInt64}
    {path : List Name} {bytes : Content} (committable : Committable path)
    (read : state.workspace.files.tree.read (agentRoot graphId agentId ++ path) = some bytes) :
    ∃ stored, (state.committed codec rules graphId agentId tick).objects.lookup (codec.ofBytes bytes) = some stored := by
  unfold committed
  rw [Git.commitBlocking_objects]
  exact Git.stored_stage (Git.mem_workFiles.mpr ⟨committable.1, committable.2.1, read⟩) committable.2.2 (stores _ _)

theorem Sound.commitTick (stores : ∀ work path, rules.admits work path = true) (sound : state.Sound codec graphId)
    {agentId : AgentId} {tick : UInt64} {next : Archive} {outputs : List Unit}
    (stepped : state.step codec rules graphId (.commitTick agentId tick) = some (next, outputs)) :
    next.Sound codec graphId := by
  obtain ⟨same, still, repos, uncommitted⟩ : next.workspace = state.workspace ∧ next.retired = state.retired ∧
      next.repos =
        (state.storage.setRepo (agentRoot graphId agentId) (state.committed codec rules graphId agentId tick)).repos ∧
      next.uncommitted = state.uncommitted.filter fun entry => ¬ agentRoot graphId agentId <+: entry.1 := by
    cases stepped
    exact ⟨rfl, rfl, commitTick_repos agentId tick, rfl⟩
  have grows : ∀ root, (state.repos root).Grows codec.ofBytes (next.repos root) := by
    rw [repos]
    exact grows_setRepo Git.grows_commitBlocking
  refine sound.grow same still grows ?_
  intro other path bytes committable read unstored dropped
  rw [uncommitted] at dropped
  have here : agentRoot graphId agentId <+: agentRoot graphId other ++ path := by
    by_contra apart
    exact dropped (List.mem_filter.mpr ⟨unstored, decide_eq_true apart⟩)
  have lengths : (agentRoot graphId agentId).length = (agentRoot graphId other).length := by
    rw [length_agentRoot, length_agentRoot]
  have own : agentRoot graphId other = agentRoot graphId agentId :=
    ((List.prefix_of_prefix_length_le here (List.prefix_append _ _) lengths.le).eq_of_length lengths).symm
  rw [own] at read
  obtain ⟨stored, found⟩ := @stored_committed codec rules graphId state stores agentId tick path bytes committable read
  have kept : (next.repos (agentRoot graphId other)).objects.lookup (codec.ofBytes bytes) = some stored := by
    rw [repos, setRepo_repos, if_pos own]
    exact found
  exact stored_iff.mpr ⟨stored, kept, (grows _).addressed (sound.addressed _) _ _ kept⟩

theorem workspace_commitTick {agentId : AgentId} {tick : UInt64} {next : Archive} {outputs : List Unit}
    (stepped : state.step codec rules graphId (.commitTick agentId tick) = some (next, outputs)) :
    next.workspace = state.workspace := by
  cases stepped
  rfl

/-- After a commit of the agent no cycle of it is uncommitted. -/
theorem committed_of_commit {agentId : AgentId} {tick : UInt64} {next : Archive} {outputs : List Unit}
    (stepped : state.step codec rules graphId (.commitTick agentId tick) = some (next, outputs)) (sha : BlobSha)
    (path : List Name) : (agentRoot graphId agentId ++ path, sha) ∉ next.uncommitted := by
  cases stepped
  exact fun kept => of_decide_eq_true (List.mem_filter.mp kept).2 (List.prefix_append _ path)

theorem Sound.stoppedCommit (sound : state.Sound codec graphId) {agentId : AgentId} {next : Archive} {outputs : List Unit}
    (stepped : state.step codec rules graphId (.stoppedCommit agentId) = some (next, outputs)) : next.Sound codec graphId := by
  cases stepped
  exact sound.grow rfl rfl (grows_setRepo Git.grows_stage) fun _ _ _ _ _ kept dropped => (dropped kept).elim

/-- What is kept stays kept, as long as no file of it goes and no agent leaves it unstored. -/
theorem Keeps.transfer {next : Archive} {outputs : AgentId → Option Content} {agentId : AgentId} {sha : BlobSha}
    (keeps : state.Keeps codec graphId outputs agentId sha) (repos : next.repos = state.repos)
    (leaves : agentId ∉ state.retired → agentId ∈ next.retired → state.Stored codec graphId agentId sha)
    (replaced : next.outputs graphId agentId = outputs agentId)
    (stays : ∀ path bytes, citedBytes (.openForAgent graphId agentId) state.workspace.files path = some bytes →
      citedBytes (.openForAgent graphId agentId) next.workspace.files path = some bytes) :
    next.Keeps codec graphId (next.outputs graphId) agentId sha := by
  have stored (held : state.Stored codec graphId agentId sha) : next.Stored codec graphId agentId sha := by
    refine held.grow fun root => ?_
    rw [repos]
    exact .refl _
  rcases keeps with held | ⟨active, bytes, address, there⟩
  · exact .inl (stored held)
  · by_cases left : agentId ∈ next.retired
    · exact .inl (stored (leaves active left))
    · refine .inr ⟨left, bytes, address, ?_⟩
      rcases there with output | ⟨path, found⟩
      · exact .inl (replaced.trans output)
      · exact .inr ⟨path, stays path bytes found⟩

/-- An agent that takes care retires on no pin of its own that is not stored. -/
theorem Sound.retires (sound : state.Sound codec graphId) {event : Scheduled}
    (careful : state.Careful codec graphId (.activity event)) (retires : event.retires = true) :
    ∀ row ∈ state.workspace.db.citations, row.citedAgentId = event.agentId →
      state.Stored codec graphId event.agentId row.citedBlobSha := by
  intro row pinned own
  have care : (∀ path, (agentRoot graphId event.agentId ++ path, row.citedBlobSha) ∉ state.uncommitted) ∨
      state.Stored codec graphId event.agentId row.citedBlobSha := by
    obtain ⟨agentId, activity, clock, writes, calls⟩ := event
    cases activity with
    | persistRetirement reason retiredAt => exact careful row pinned own
    | _ => cases retires
  rcases care with committed | stored
  · have resolved := sound.resolvable row pinned
    rw [own] at resolved
    exact resolved (.inl committed)
  · exact stored

/-- What is in the files after an activity was there before, or is yet to be committed. -/
theorem Sound.tracked_perform (sound : state.Sound codec graphId) (event : Scheduled) (agentId : AgentId)
    (path : List Name) (bytes : Content) (committable : Committable path)
    (read : (state.perform codec graphId event).workspace.files.tree.read (agentRoot graphId agentId ++ path) = some bytes) :
    (state.perform codec graphId event).Stored codec graphId agentId (codec.ofBytes bytes) ∨
      (agentRoot graphId agentId ++ path, codec.ofBytes bytes) ∈ (state.perform codec graphId event).uncommitted := by
  rcases @mem_rewritten codec state.workspace.files _ _ _ read with before | new
  · rcases sound.tracked agentId path bytes committable before with stored | earlier
    · exact .inl (stored.grow fun root => .refl _)
    · exact .inr (List.mem_append_right _ earlier)
  · exact .inr (List.mem_append_left _ new)

/-- An activity that replaces no output keeps every pin, unless its agent retires on it. -/
theorem Sound.adds (sound : state.Sound codec graphId) {event : Scheduled} {made : AgentId → String → EvidenceRecord → Prop}
    (careful : state.Careful codec graphId (.activity event))
    (adds : Adds graphId made state.workspace.files (state.workspace.step codec graphId event).files)
    (rows : (state.workspace.step codec graphId event).db.citations = state.workspace.db.citations) :
    (state.perform codec graphId event).Sound codec graphId where
  addressed := sound.addressed
  named agentId path bytes found := (adds.named found).elim (sound.named agentId path bytes) id
  tracked := sound.tracked_perform event
  kept row member := by
    have pinned : row ∈ state.workspace.db.citations := rows ▸ member
    refine (sound.kept row pinned).transfer rfl ?_ (adds.output _) fun _ _ => adds.stays
    intro active left
    change row.citedAgentId ∈ if event.retires then event.agentId :: state.retired else state.retired at left
    split at left
    · rename_i retires
      have own : row.citedAgentId = event.agentId := (List.mem_cons.mp left).resolve_right active
      rw [own]
      exact sound.retires careful retires row pinned own
    · exact (active left).elim

/-- An output that takes the place of another keeps what is pinned, as long as care is taken. -/
theorem Sound.replaces (sound : state.Sound codec graphId) {event : Scheduled} {body : String} {citations : List String}
    {opened : LocalStorage} {made : AgentId → String → EvidenceRecord → Prop}
    (careful : state.Careful codec graphId (.activity event)) (persists : event.activity = .persistOutput body citations)
    (passes : PassesGate graphId event.agentId state.workspace.files citations)
    (adds : Adds graphId made state.workspace.files opened)
    (sets : Sets opened (state.workspace.step codec graphId event).files
      ((AgentFs.openForAgent graphId event.agentId).key CANONICAL_OUTPUT) (some (.text body)))
    (rows : ∀ row ∈ (state.workspace.step codec graphId event).db.citations, row ∈ state.workspace.db.citations ∨
      VersionCited codec graphId event.agentId state.workspace.files citations row.citedAgentId row.citedBlobSha) :
    (state.perform codec graphId event).Sound codec graphId := by
  have same : SameEvidence graphId opened (state.perform codec graphId event).workspace.files :=
    sameEvidence_sets sets (.inl (by decide))
  have stays : event.retires = false := by
    unfold Scheduled.retires
    rw [persists]
  have still : (state.perform codec graphId event).retired = state.retired := if_neg (Bool.eq_false_iff.mp stays)
  have replaced : ∀ agentId, (state.perform codec graphId event).outputs graphId agentId =
      Function.update (state.outputs graphId) event.agentId (some (.text body)) agentId := by
    intro agentId
    rw [Function.update_apply]
    split
    · rename_i own
      rw [own]
      exact sets.at_key
    · rename_i other
      refine (sets.apart fun there => ?_).trans (adds.output agentId)
      exact other (keyPath_agent_inj there).1
  refine ⟨sound.addressed, ?_, sound.tracked_perform event, ?_⟩
  · intro agentId path bytes found
    rw [same] at found
    exact (adds.named found).elim (sound.named agentId path bytes) id
  · intro row member
    have keeps : state.Keeps codec graphId (Function.update (state.outputs graphId) event.agentId (some (.text body)))
        row.citedAgentId row.citedBlobSha := by
      unfold Careful at careful
      simp only [persists] at careful
      obtain ⟨pinned, cited⟩ := careful passes
      exact (rows row member).elim (pinned row) (cited _ _)
    refine keeps.transfer rfl (fun active left => ?_) (replaced _) fun path bytes found => ?_
    · rw [still] at left
      exact (active left).elim
    · rw [same]
      exact adds.stays found

theorem Sound.activity (sound : state.Sound codec graphId) {event : Scheduled} {next : Archive} {outputs : List Unit}
    (careful : state.Careful codec graphId (.activity event))
    (stepped : state.step codec rules graphId (.activity event) = some (next, outputs)) : next.Sound codec graphId := by
  obtain rfl : next = state.perform codec graphId event := by
    unfold step at stepped
    simp only at stepped
    split at stepped
    · cases stepped
    · cases stepped
      rfl
  rcases step_cases codec graphId state.workspace event with ⟨⟨made, adds⟩, rows⟩ |
    ⟨body, citations, persists, passes, ⟨made, opened, adds, sets⟩, rows⟩
  · exact sound.adds careful adds rows
  · exact sound.replaces careful persists passes adds sets rows

theorem sound_start {files : LocalStorage} {db : StructuralDb} (pristine : Pristine graphId ⟨files, db, []⟩) :
    (start codec files db).Sound codec graphId where
  addressed root sha content found := by cases found
  named agentId path bytes found := by
    exact absurd ((pristine.evidence agentId path).symm.trans found) (Option.some_ne_none bytes).symm
  tracked agentId path bytes _ read := by
    rcases @mem_rewritten codec ⟨.empty⟩ files _ _ read with before | new
    · rw [FileTree.read_empty] at before
      cases before
    · exact .inr new
  kept row member := by
    rw [show (start codec files db).workspace.db.citations = [] from pristine.citations] at member
    cases member

theorem Sound.step (stores : ∀ work path, rules.admits work path = true) (sound : state.Sound codec graphId)
    {event : ArchiveEvent} {next : Archive} {outputs : List Unit} (careful : state.Careful codec graphId event)
    (stepped : state.step codec rules graphId event = some (next, outputs)) : next.Sound codec graphId := by
  cases event with
  | activity event => exact sound.activity careful stepped
  | commitTick agentId tick => exact sound.commitTick stores stepped
  | stoppedCommit agentId => exact sound.stoppedCommit stepped

end Archive

/-- As long as no output that is pinned is replaced before it is stored, nothing is cited that is
gone, and no agent retires on a pin of its own that a cycle wrote and did not commit, every pin
is read back from its agent's repository once it is due. -/
theorem pins_resolvable {codec : Codec} {rules : GitRules} {graphId : GraphId} {files : LocalStorage} {db : StructuralDb}
    {events : List ArchiveEvent} {final : Archive} {outputs : List Unit}
    (stores : ∀ work path, rules.admits work path = true) (pristine : Pristine graphId ⟨files, db, []⟩)
    (careful : (archive codec rules graphId).Along (fun state event => state.Careful codec graphId event)
      (.start codec files db) events)
    (ran : (archive codec rules graphId).run (.start codec files db) events = some (final, outputs)) :
    final.Resolvable codec graphId := by
  have sound : final.Sound codec graphId := by
    refine (archive codec rules graphId).run_invariant_along (Archive.Sound codec graphId) (Archive.sound_start pristine) ?_
      careful ran
    intro state event next more sound met stepped
    exact sound.step stores met stepped
  exact sound.resolvable

section Examples

private def keeper : AgentId := ⟨⟨1⟩⟩

private def pages : Codec :=
  listedCodec [("", "e69de29bb2d1d6434b8b29ae775ad8c2e48c5391"), ("Yes.", "fa15caba05f4613780ff1fc50c1709b4395a0710")] [keeper]

/-- The addresses of the files that the runs below write. -/
private def shelved : Codec :=
  { pages with
    ofBytes := fun
      | .text body => pages.ofBytes (.text body)
      | .tail _ => ⟨"4962c9bc0270cd5759bca5d2fd7d3285eadc1966"⟩
      | .evidence _ => ⟨"232e12a7ec68df3e34fcff779f8d32b8a69890fe"⟩
      | .json _ => ⟨"7768b66fbdb3be34d997d99622d5c174eeb2d100"⟩ }

private def lenient : GitRules := ⟨fun _ _ => false, fun _ _ => false⟩

private theorem lenient_stores (work : WorkTree) (path : List Name) : lenient.admits work path = true := by
  unfold GitRules.admits lenient
  simp

private def holdings : StructuralDb :=
  ⟨[⟨⟨⟨0⟩⟩, "library", .null⟩], [⟨keeper, ⟨⟨0⟩⟩, "keeper"⟩], [], [], ∅, []⟩

private def catalogue : Except String ToolRegistry :=
  ToolRegistry.new.ofServers [(["web"], [("search", fun _ => .ok (.string "Yes."))])]

private def searching : ToolCall where
  name := "search"
  args := .object [("query", .string "coral")]
  claimSeed := "Coral thrives"
  toolUseId := none

private def dawn : Clock := fun _ => ⟨0⟩

private def sighting : Observed := ⟨"search", searching.args, .string "Yes.", ⟨0⟩, searching.claimSeed, ⟨0⟩⟩

/-- The keeper has searched, and cites what was found. -/
private def shelving : List Scheduled :=
  [⟨keeper, .executeTool catalogue ["web"] searching, dawn, 5, 0⟩,
    ⟨keeper, .persistOutput "Yes." [sighting.relpath], dawn, 4, 2⟩]

private def retiring : Scheduled := ⟨keeper, .persistRetirement "done" ⟨0⟩, dawn, 1, 0⟩

private def opening : Archive := .start shelved ⟨.empty⟩ holdings

private theorem opening_pristine : Pristine ⟨⟨0⟩⟩ opening.workspace where
  evidence agentId path := by
    unfold citedBytes
    split
    · exact viewAt_empty _
    · rfl
  citations := rfl

private def consulted : Archive :=
  opening.perform shelved ⟨⟨0⟩⟩ ⟨keeper, .executeTool catalogue ["web"] searching, dawn, 5, 0⟩

private def shelf : Archive :=
  consulted.perform shelved ⟨⟨0⟩⟩ ⟨keeper, .persistOutput "Yes." [sighting.relpath], dawn, 4, 2⟩

private theorem perform_workspace (codec : Codec) (graphId : GraphId) (state : Archive) (event : Scheduled) :
    (state.perform codec graphId event).workspace = state.workspace.step codec graphId event := rfl

private theorem sighting_recorded :
    citedBytes (.openForAgent ⟨⟨0⟩⟩ keeper) consulted.workspace.files sighting.relpath = some (.evidence sighting.record) ∧
      consulted.workspace.db = holdings ∧ agentKeys.Clear consulted.workspace.files := by
  unfold consulted
  rw [perform_workspace]
  obtain ⟨recorded, db, -, alive⟩ := @tool_recorded LocalStorage _ _ agentKeys.footing shelved ⟨⟨0⟩⟩ keeper
    opening.workspace catalogue ["web"] searching dawn (.string "Yes.") (agentKeys_houses _ _) agentKeys.frees
    agentKeys.clear_empty (by rfl) (opening_pristine.evidence keeper)
  exact ⟨recorded, db, alive⟩

private def pin : Citation :=
  ⟨keeper, CANONICAL_OUTPUT, shelved.ofBytes (.text "Yes."), keeper, sighting.relpath,
    shelved.ofBytes (.evidence sighting.record)⟩

private theorem sighting_resolved : resolveRecord shelved keeper sighting.relpath (.evidence sighting.record) =
    .ok (keeper, sighting.relpath, shelved.ofBytes (.evidence sighting.record)) := rfl

private theorem shelf_pinned : pin ∈ shelf.workspace.db.citations := by
  obtain ⟨recorded, db, alive⟩ := sighting_recorded
  have known : keeper ∈ consulted.workspace.db.agents := by
    rw [db]
    decide
  unfold shelf pin
  rw [perform_workspace]
  exact (@output_cited LocalStorage _ _ agentKeys.footing shelved ⟨⟨0⟩⟩ keeper consulted.workspace "Yes."
    sighting.relpath sighting.relpath dawn _ keeper _ (agentKeys_houses _ _) (agentKeys_finds _ _ _) alive known known
    recorded sighting_resolved).1

private theorem retiring_rows (state : Workspace LocalStorage) :
    (state.step shelved ⟨⟨0⟩⟩ retiring).db.citations = state.db.citations := rfl

/-- The keeper was continued as new in the middle of its cycle, and retires as soon as it is
resumed. Its records go without a commit. -/
theorem retired_unstored : ∃ final outputs,
    (archive shelved lenient ⟨⟨0⟩⟩).run opening (shelving.map .activity ++ [.activity retiring]) = some (final, outputs) ∧
      ¬ final.Resolvable shelved ⟨⟨0⟩⟩ := by
  refine ⟨shelf.perform shelved ⟨⟨0⟩⟩ retiring, [], rfl, ?_⟩
  intro resolvable
  have member : pin ∈ (shelf.perform shelved ⟨⟨0⟩⟩ retiring).workspace.db.citations := by
    rw [perform_workspace, retiring_rows]
    exact shelf_pinned
  obtain ⟨bytes, found, -⟩ := Archive.stored_iff.mp (resolvable pin member (.inr List.mem_cons_self))
  cases found

private theorem shelving_careful : consulted.Careful shelved ⟨⟨0⟩⟩
    (.activity ⟨keeper, .persistOutput "Yes." [sighting.relpath], dawn, 4, 2⟩) := by
  obtain ⟨recorded, db, -⟩ := sighting_recorded
  intro passes
  constructor
  · intro row member
    rw [db] at member
    cases member
  · intro agentId sha cited
    obtain ⟨path, member, bytes, filepath, found, resolved⟩ := cited
    obtain rfl := List.mem_singleton.mp member
    obtain rfl := Option.some.inj (recorded.symm.trans found)
    have same := sighting_resolved.symm.trans resolved
    rw [Except.ok.injEq, Prod.mk.injEq, Prod.mk.injEq] at same
    obtain ⟨agent, -, address⟩ := same
    rw [← agent, ← address]
    exact .inr ⟨List.not_mem_nil, _, rfl, .inr ⟨_, found⟩⟩

/-- Where the cycle ends with its commit, the record is read back after the keeper has retired. -/
theorem pins_resolvable_shelving : ∃ final outputs,
    (archive shelved lenient ⟨⟨0⟩⟩).run opening
        (shelving.map .activity ++ [.commitTick keeper 0, .activity retiring]) = some (final, outputs) ∧
      keeper ∈ final.retired ∧ pin ∈ final.workspace.db.citations ∧
      final.Stored shelved ⟨⟨0⟩⟩ keeper pin.citedBlobSha := by
  obtain ⟨shelfCommitted, stepped, still⟩ : ∃ next : Archive,
      (archive shelved lenient ⟨⟨0⟩⟩).step shelf (.commitTick keeper 0) = some (next, []) ∧ next.retired = [] := ⟨_, rfl, rfl⟩
  have left : (archive shelved lenient ⟨⟨0⟩⟩).step shelfCommitted (.activity retiring) =
      some (shelfCommitted.perform shelved ⟨⟨0⟩⟩ retiring, []) := by
    refine if_neg ?_
    rw [still]
    exact fun both => List.not_mem_nil both.1
  have careful : (archive shelved lenient ⟨⟨0⟩⟩).Along (fun state event => state.Careful shelved ⟨⟨0⟩⟩ event) opening
      (shelving.map .activity ++ [.commitTick keeper 0, .activity retiring]) := by
    refine ((archive shelved lenient _).along_cons rfl).mpr ⟨trivial, ((archive shelved lenient _).along_cons rfl).mpr
      ⟨shelving_careful, ((archive shelved lenient _).along_cons stepped).mpr ⟨trivial,
        ((archive shelved lenient _).along_cons left).mpr ⟨?_, trivial⟩⟩⟩⟩
    exact fun row _ _ => .inl (Archive.committed_of_commit stepped row.citedBlobSha)
  have ran : (archive shelved lenient ⟨⟨0⟩⟩).run opening
      (shelving.map .activity ++ [.commitTick keeper 0, .activity retiring]) =
      some (shelfCommitted.perform shelved ⟨⟨0⟩⟩ retiring, []) := by
    have through : (archive shelved lenient ⟨⟨0⟩⟩).run opening (shelving.map .activity ++ [.commitTick keeper 0]) =
        some (shelfCommitted, []) := (archive shelved lenient _).run_snoc.mpr ⟨shelf, [], [], rfl, stepped, rfl⟩
    exact (archive shelved lenient _).run_snoc.mpr ⟨shelfCommitted, [], [], through, left, rfl⟩
  have member : pin ∈ (shelfCommitted.perform shelved ⟨⟨0⟩⟩ retiring).workspace.db.citations := by
    rw [perform_workspace, retiring_rows, Archive.workspace_commitTick stepped]
    exact shelf_pinned
  exact ⟨_, [], ran, List.mem_cons_self, member,
    pins_resolvable lenient_stores opening_pristine careful ran pin member (.inr List.mem_cons_self)⟩

end Examples

end Coral.Proofs

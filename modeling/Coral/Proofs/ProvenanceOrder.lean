import Coral.Proofs.AgentIsolation
import Coral.Proofs.CitationPins
import Coral.Proofs.PinnedVersions
import Coral.Proofs.ReconcileAtomicity
import Mathlib.Logic.Relation

/-! The order that citations put on the outputs of a graph. A fold reads an output that is
in place, and no record changes, so what an output cites was there before it was. -/

namespace Coral.Proofs
open Coral.Library Coral.Temporal LawfulStorage

structure OutputVersion where
  agentId : AgentId
  blobSha : BlobSha
deriving DecidableEq

/-- A row that cites an output, and not a record of the agent's own. -/
def Cites (db : StructuralDb) (citing cited : OutputVersion) : Prop :=
  ∃ row ∈ db.citations, row.citedFilepath = CANONICAL_OUTPUT ∧
    citing = ⟨row.citingAgentId, row.citingBlobSha⟩ ∧ cited = ⟨row.citedAgentId, row.citedBlobSha⟩

/-- The first came into place before the second did. -/
def Older (placed : List OutputVersion) (first second : OutputVersion) : Prop :=
  first ∈ placed ∧ second ∈ placed ∧ placed.idxOf first < placed.idxOf second

theorem Older.extend {placed : List OutputVersion} {first second : OutputVersion} (older : Older placed first second)
    (more : List OutputVersion) : Older (placed ++ more) first second := by
  obtain ⟨one, two, before⟩ := older
  refine ⟨List.mem_append_left _ one, List.mem_append_left _ two, ?_⟩
  rwa [List.idxOf_append_of_mem one, List.idxOf_append_of_mem two]

/-- What is placed last is younger than all that was there. -/
theorem Older.last {placed : List OutputVersion} {first second : OutputVersion} (earlier : first ∈ placed)
    (fresh : second ∉ placed) : Older (placed ++ [second]) first second := by
  refine ⟨List.mem_append_left _ earlier, List.mem_append_right _ (List.mem_singleton_self _), ?_⟩
  rw [List.idxOf_append_of_mem earlier, List.idxOf_append_of_notMem fresh, List.idxOf_cons_self]
  exact Nat.lt_of_lt_of_le (List.idxOf_lt_length_of_mem earlier) (Nat.le_add_right _ _)

theorem acyclic_of_older {placed : List OutputVersion} {cites : OutputVersion → OutputVersion → Prop}
    (older : ∀ citing cited, cites citing cited → Older placed cited citing) (version : OutputVersion) :
    ¬ Relation.TransGen cites version version := by
  intro cycle
  have descends : ∀ last, Relation.TransGen cites version last → placed.idxOf last < placed.idxOf version := by
    intro last path
    induction path with
    | single edge => exact (older _ _ edge).2.2
    | tail _ edge earlier => exact (older _ _ edge).2.2.trans earlier
  exact Nat.lt_irrefl _ (descends version cycle)

def Fold.version (codec : Codec) (fold : Fold) : OutputVersion :=
  ⟨fold.source.childRef.agentId, codec.ofBytes (.text fold.body)⟩

theorem resolveRecord_fold {codec : Codec} (faithful : Faithful codec) {agentId cited : AgentId} {path filepath : String}
    {fold : Fold} {sha : BlobSha}
    (resolved : resolveRecord codec agentId path (.evidence (fold.record codec)) = .ok (cited, filepath, sha)) :
    (⟨cited, sha⟩ : OutputVersion) = fold.version codec := by
  have child : (fold.record codec).args.get? "child_agent_id" = some fold.source.childRef.agentId.toJson := by
    simp [Fold.record, foldRecord, EvidenceRecord.new, Json.get?]
  have pinned : (fold.record codec).args.get? "child_output_blob_sha" =
      some (.string (codec.ofBytes (.text fold.body)).hex) := by
    simp [Fold.record, foldRecord, EvidenceRecord.new, Json.get?]
  unfold resolveRecord at resolved
  rw [faithful.fromSlice] at resolved
  simp only [show (fold.record codec).tool = "reconcile" from rfl, if_true, child, pinned, Option.bind_some, Json.asStr]
    at resolved
  split at resolved
  · cases resolved
  · rename_i named
    cases resolved
    rw [faithful.fromValue _ _ named]
    rfl

section Run

variable {σ : Type} [AgentStorage σ] [LawfulStorage σ] {codec : Codec} {graphId : GraphId} {state : Workspace σ}
  {event : Scheduled}

/-- A graph that has just been applied: no agent has evidence or an output, and nothing is cited. -/
structure Unstarted (graphId : GraphId) (state : Workspace σ) : Prop extends Pristine graphId state where
  outputs : ∀ agentId, viewAt state.files ((AgentFs.openForAgent graphId agentId).key CANONICAL_OUTPUT) = none

/-- The records that a list of citations names. -/
def recordsOf (citations : List String) : Set String :=
  { rel | ∃ path ∈ citations, AgentFs.evidenceRelpathChecked path = .ok rel }

variable (codec graphId) in
/-- A version that an agent persists again, past the gate, cites the same records again. -/
def Recited (start : Workspace σ) (events : List Scheduled) : Prop :=
  ∃ records : OutputVersion → Set String, (graphActivities codec graphId).Along (fun state event =>
    ∀ body citations, event.activity = .persistOutput body citations →
      PassesGate graphId event.agentId state.files citations →
        records ⟨event.agentId, codec.ofBytes (.text body)⟩ = recordsOf citations) start events

/-- What is cited is the record, however its path is written. -/
theorem citedBytes_same {fs : AgentFs} {storage : σ} {path other rel : String}
    (checked : AgentFs.evidenceRelpathChecked path = .ok rel) (same : AgentFs.evidenceRelpathChecked other = .ok rel) :
    citedBytes fs storage path = citedBytes fs storage other := by
  unfold citedBytes
  rw [checked, same]

/-- A record that is there stays as it is. -/
theorem step_stays {agentId : AgentId} {path : String} {bytes : Content}
    (found : citedBytes (.openForAgent graphId agentId) state.files path = some bytes) :
    citedBytes (.openForAgent graphId agentId) (state.step codec graphId event).files path = some bytes := by
  rcases step_cases codec graphId state event with ⟨⟨made, adds⟩, -⟩ | ⟨body, citations, -, -, ⟨made, opened, adds, sets⟩, -⟩
  · exact adds.stays found
  · rw [sameEvidence_sets sets (.inl (by decide))]
    exact adds.stays found

/-- A row that was not there says that the output is. -/
theorem output_placed {body : String} {citations : List String} {row : Citation}
    (persists : event.activity = .persistOutput body citations) (fresh : row ∉ state.db.citations)
    (member : row ∈ (state.step codec graphId event).db.citations) :
    viewAt (state.step codec graphId event).files ((AgentFs.openForAgent graphId event.agentId).key CANONICAL_OUTPUT) =
      some (.text body) := by
  rcases step_cases codec graphId state event with ⟨-, rows⟩ | ⟨other, others, again, -, ⟨_, _, -, sets⟩, -⟩
  · rw [rows] at member
    exact (fresh member).elim
  · rw [persists] at again
    cases again
    exact sets.at_key

/-- What an agent does makes no record of another's. -/
theorem step_unread (state : Workspace σ) {agentId : AgentId} (apart : event.agentId ≠ agentId) (path : String) :
    citedBytes (.openForAgent graphId agentId) (state.step codec graphId event).files path =
      citedBytes (.openForAgent graphId agentId) state.files path := by
  unfold citedBytes
  split
  · exact step_outside state event _ (agentRoot_apart apart _)
  · rfl

/-- A row that is new cites for the version that is persisted. -/
theorem fresh_row {row : Citation} (fresh : row ∉ state.db.citations)
    (member : row ∈ (state.step codec graphId event).db.citations) :
    ∃ body citations, event.activity = .persistOutput body citations ∧ row.citingAgentId = event.agentId ∧
      row.citingBlobSha = codec.ofBytes (.text body) ∧ ∃ path ∈ citations, ∃ bytes,
        citedBytes (.openForAgent graphId event.agentId) state.files path = some bytes ∧
        resolveRecord codec event.agentId path bytes = .ok (row.citedAgentId, row.citedFilepath, row.citedBlobSha) := by
  obtain ⟨body, citations, _, _, persists, -, -, -, -⟩ := cited_row fresh member
  refine ⟨body, citations, persists, ?_⟩
  obtain ⟨agentId, activity, clock, writes, calls⟩ := event
  obtain rfl : activity = .persistOutput body citations := persists
  unfold Workspace.step at member
  simp only at member
  generalize ran : persistOutputImpl codec clock agentId (FsHandle.forAgent graphId agentId).storagePrefix body citations
    (⟨state.files, writes, []⟩ : Stopping σ) (⟨state.db, calls⟩ : FaultyDb) = ended at member
  obtain ⟨result, after, final⟩ := ended
  let call : PersistCall := ⟨agentId, (FsHandle.forAgent graphId agentId).storagePrefix, body, citations⟩
  obtain ⟨partway, -⟩ := @persistOutputImpl_spec (Stopping σ) _ _ codec call (Stopping σ) _ id through_id _ _ _ _ _ _ ran
  obtain ⟨path, among, named⟩ := (partway.added row member).resolve_left fresh
  obtain ⟨agent, bytes, found, resolved⟩ := row_some named
  rw [show call.fs = .openForAgent graphId agentId from attach_forAgent graphId agentId] at found
  refine ⟨agent, ?_, path, among, bytes, found, resolved⟩
  unfold PersistCall.row at named
  obtain ⟨_, -, named⟩ := Option.bind_eq_some_iff.mp named
  obtain ⟨_, -, named⟩ := Option.bind_eq_some_iff.mp named
  cases named
  rfl

theorem readChildOutput_ok {source : ReconcileSource} {storage : σ} {body : String}
    (read : readChildOutput codec graphId source storage = .ok body) :
    ∃ bytes, viewAt storage ((AgentFs.openForAgent graphId source.childRef.agentId).key CANONICAL_OUTPUT) = some bytes ∧
      codec.fromUtf8 bytes = some body := by
  unfold readChildOutput at read
  simp only at read
  split at read
  · cases read
  · cases read
  · rename_i bytes got
    split at read
    · rename_i decoded
      cases read
      exact ⟨bytes, (get_spec got).symm, decoded⟩
    · cases read

/-- The versions in the order in which they came into place. A fold is of one of them, and what
a version cites was in place before it. -/
structure Chronicle (codec : Codec) (graphId : GraphId) (records : OutputVersion → Set String)
    (placed : List OutputVersion) (state : Workspace σ) : Prop where
  outputs : ∀ agentId bytes, viewAt state.files ((AgentFs.openForAgent graphId agentId).key CANONICAL_OUTPUT) = some bytes →
    ∃ body, bytes = .text body ∧ ⟨agentId, codec.ofBytes (.text body)⟩ ∈ placed
  folds : ∀ agentId path bytes, citedBytes (.openForAgent graphId agentId) state.files path = some bytes →
    ∃ record, bytes = .evidence record ∧
      (record.tool = "reconcile" → ∃ fold : Fold, record = fold.record codec ∧ fold.version codec ∈ placed)
  settled : ∀ version ∈ placed, ∀ path rel, AgentFs.evidenceRelpathChecked path = .ok rel → rel ∈ records version →
    ∃ bytes, citedBytes (.openForAgent graphId version.agentId) state.files path = some bytes ∧
    ∀ cited sha, resolveRecord codec version.agentId path bytes = .ok (cited, CANONICAL_OUTPUT, sha) →
      Older placed ⟨cited, sha⟩ version
  rows : ∀ citing cited, Cites state.db citing cited → Older placed cited citing

namespace Chronicle

variable {records : OutputVersion → Set String} {placed : List OutputVersion}

theorem start (unstarted : Unstarted graphId state) : Chronicle codec graphId records [] state where
  outputs agentId bytes found := by
    rw [unstarted.outputs] at found
    cases found
  folds agentId path bytes found := by
    rw [unstarted.evidence] at found
    cases found
  settled version member := (List.not_mem_nil member).elim
  rows citing cited cited_by := by
    obtain ⟨row, member, -⟩ := cited_by
    rw [unstarted.citations] at member
    cases member

/-- An output that is cited is one of the versions. -/
theorem resolves (faithful : Faithful codec) (chronicle : Chronicle codec graphId records placed state)
    {agentId cited : AgentId} {path : String} {bytes : Content} {sha : BlobSha}
    (found : citedBytes (.openForAgent graphId agentId) state.files path = some bytes)
    (resolved : resolveRecord codec agentId path bytes = .ok (cited, CANONICAL_OUTPUT, sha)) :
    ⟨cited, sha⟩ ∈ placed := by
  obtain ⟨record, rfl, folded⟩ := chronicle.folds agentId path bytes found
  by_cases tool : record.tool = "reconcile"
  · obtain ⟨fold, rfl, member⟩ := folded tool
    rw [resolveRecord_fold faithful resolved]
    exact member
  · -- a record of the agent's own is named by its path, which is no output's
    unfold resolveRecord at resolved
    rw [faithful.fromSlice] at resolved
    simp only [if_neg tool, Except.ok.injEq, Prod.mk.injEq] at resolved
    rw [resolved.2.1] at found
    cases found

/-- What an honest activity makes of a `reconcile` record is the fold of an output in place. -/
theorem made (reads : ∀ body text, codec.fromUtf8 (.text body) = some text → text = body)
    (chronicle : Chronicle codec graphId records placed state) (honest : event.Honest) {agentId : AgentId} {rel : String}
    {record : EvidenceRecord} (tool : record.tool = "reconcile")
    (makes : event.Makes codec graphId (⟨state.files, event.writes, []⟩ : Stopping σ) agentId rel record) :
    ∃ fold : Fold, record = fold.record codec ∧ fold.version codec ∈ placed := by
  obtain ⟨eventAgent, activity, clock, writes, calls⟩ := event
  cases activity with
  | executeTool registry allowedTools call =>
    change dispatchTool registry allowedTools call (clock 0) = .ok record at makes
    obtain ⟨answer, same⟩ := dispatchTool_ok makes
    have refused : (dispatchTool registry allowedTools call (clock 0)).toOption = none := by
      apply honest
      rw [← tool, same]
      rfl
    rw [makes] at refused
    cases refused
  | reconcileChildren sources conflict now =>
    obtain ⟨fold, among, -, -, same⟩ := makes
    refine ⟨fold, same, ?_⟩
    unfold Scheduled.folds foldsOf at among
    obtain ⟨⟨source, body⟩, member, rfl⟩ := List.mem_map.mp among
    cases read : readChildOutputs codec graphId (⟨state.files, writes, []⟩ : Stopping σ) sources with
    | error error =>
      rw [read] at member
      cases member
    | ok outputs =>
      rw [read] at member
      obtain ⟨-, here⟩ := (readChildOutputs_ok read source body).mp member
      obtain ⟨bytes, output, decoded⟩ := readChildOutput_ok here
      obtain ⟨written, rfl, placed⟩ := chronicle.outputs source.childRef.agentId bytes output
      rw [show Fold.version codec ⟨eventAgent, source, body, now⟩ =
        ⟨source.childRef.agentId, codec.ofBytes (.text body)⟩ from rfl, reads _ _ decoded]
      exact placed
  | _ => exact makes.elim

/-- The folds after a step are those of versions in place before it. -/
theorem folds_step (reads : ∀ body text, codec.fromUtf8 (.text body) = some text → text = body)
    (chronicle : Chronicle codec graphId records placed state) (honest : event.Honest) (agentId : AgentId) (path : String)
    (bytes : Content)
    (found : citedBytes (.openForAgent graphId agentId) (state.step codec graphId event).files path = some bytes) :
    ∃ record, bytes = .evidence record ∧
      (record.tool = "reconcile" → ∃ fold : Fold, record = fold.record codec ∧ fold.version codec ∈ placed) := by
  rcases newEvidence_step state event agentId path with same | ⟨rel, record, -, makes, written⟩
  · exact chronicle.folds agentId path bytes (same ▸ found)
  · rw [written] at found
    exact ⟨record, (Option.some.inj found).symm, fun tool => chronicle.made reads honest tool makes⟩

/-- No version is placed. -/
theorem keeps (reads : ∀ body text, codec.fromUtf8 (.text body) = some text → text = body)
    (chronicle : Chronicle codec graphId records placed state) (honest : event.Honest)
    {made : AgentId → String → EvidenceRecord → Prop}
    (adds : Adds graphId made state.files (state.step codec graphId event).files)
    (rows : (state.step codec graphId event).db.citations = state.db.citations) :
    Chronicle codec graphId records placed (state.step codec graphId event) where
  outputs agentId bytes found := chronicle.outputs agentId bytes (adds.output agentId ▸ found)
  folds := chronicle.folds_step reads honest
  settled version member path rel checked among := by
    obtain ⟨bytes, found, older⟩ := chronicle.settled version member path rel checked among
    exact ⟨bytes, adds.stays found, older⟩
  rows citing cited cited_by := by
    obtain ⟨row, member, rest⟩ := cited_by
    exact chronicle.rows citing cited ⟨row, rows ▸ member, rest⟩

/-- The version that is persisted is placed last, unless it has been there before. -/
theorem places (faithful : Faithful codec) (reads : ∀ body text, codec.fromUtf8 (.text body) = some text → text = body)
    (chronicle : Chronicle codec graphId records placed state) (honest : event.Honest) {body : String}
    {citations : List String} {opened : σ} {made : AgentId → String → EvidenceRecord → Prop}
    (persists : event.activity = .persistOutput body citations)
    (assigned : records ⟨event.agentId, codec.ofBytes (.text body)⟩ = recordsOf citations)
    (passes : PassesGate graphId event.agentId state.files citations) (adds : Adds graphId made state.files opened)
    (sets : Sets opened (state.step codec graphId event).files
      ((AgentFs.openForAgent graphId event.agentId).key CANONICAL_OUTPUT) (some (.text body))) :
    Chronicle codec graphId records (placed ++ [⟨event.agentId, codec.ofBytes (.text body)⟩])
      (state.step codec graphId event) := by
  let version : OutputVersion := ⟨event.agentId, codec.ofBytes (.text body)⟩
  have settled : ∀ other ∈ placed ++ [version], ∀ path rel, AgentFs.evidenceRelpathChecked path = .ok rel →
      rel ∈ records other → ∃ bytes, citedBytes (.openForAgent graphId other.agentId) state.files path = some bytes ∧
        ∀ cited sha, resolveRecord codec other.agentId path bytes = .ok (cited, CANONICAL_OUTPUT, sha) →
          Older (placed ++ [version]) ⟨cited, sha⟩ other := by
    intro other member path rel checked among
    by_cases earlier : other ∈ placed
    · obtain ⟨bytes, found, older⟩ := chronicle.settled other earlier path rel checked among
      exact ⟨bytes, found, fun cited sha resolved => (older cited sha resolved).extend _⟩
    · obtain rfl := List.mem_singleton.mp ((List.mem_append.mp member).resolve_left earlier)
      rw [assigned] at among
      obtain ⟨cited_path, given, same⟩ := among
      obtain ⟨bytes, found⟩ := Option.isSome_iff_exists.mp (passes.2 cited_path given)
      rw [citedBytes_same same checked] at found
      exact ⟨bytes, found, fun cited sha resolved => .last (chronicle.resolves faithful found resolved) earlier⟩
  refine ⟨?_, ?_, ?_, ?_⟩
  · intro agentId bytes found
    by_cases own : agentId = event.agentId
    · rw [own, sets.at_key] at found
      exact ⟨body, (Option.some.inj found).symm, List.mem_append_right _ (by rw [own]; exact List.mem_singleton_self _)⟩
    · rw [sets.apart fun there => own (keyPath_agent_inj there).1, adds.output] at found
      obtain ⟨text, same, member⟩ := chronicle.outputs agentId bytes found
      exact ⟨text, same, List.mem_append_left _ member⟩
  · intro agentId path bytes found
    obtain ⟨record, whole, folded⟩ := chronicle.folds_step reads honest agentId path bytes found
    refine ⟨record, whole, fun tool => ?_⟩
    obtain ⟨fold, same, member⟩ := folded tool
    exact ⟨fold, same, List.mem_append_left _ member⟩
  · intro other member path rel checked among
    obtain ⟨bytes, found, older⟩ := settled other member path rel checked among
    exact ⟨bytes, step_stays found, older⟩
  · intro citing cited cited_by
    obtain ⟨row, member, output, rfl, rfl⟩ := cited_by
    by_cases earlier : row ∈ state.db.citations
    · exact (chronicle.rows _ _ ⟨row, earlier, output, rfl, rfl⟩).extend _
    · obtain ⟨text, others, same, agent, sha, path, among, bytes, found, resolved⟩ := fresh_row earlier member
      rw [persists] at same
      cases same
      obtain ⟨rel, checked⟩ : ∃ rel, AgentFs.evidenceRelpathChecked path = .ok rel := by
        unfold citedBytes at found
        split at found
        · exact ⟨_, ‹_›⟩
        · cases found
      obtain ⟨other, there, older⟩ := settled version (List.mem_append_right _ (List.mem_singleton_self _)) path rel checked
        (by rw [assigned]; exact ⟨path, among, checked⟩)
      obtain rfl : other = bytes := Option.some.inj (there.symm.trans found)
      rw [agent, sha]
      exact older _ _ (output ▸ resolved)

end Chronicle

/-- What an output cites of other outputs was in place before it, so no output rests on itself:
as long as no tool called `reconcile` answers, and each version goes by one set of records. -/
theorem provenance_acyclic (faithful : Faithful codec)
    (reads : ∀ body text, codec.fromUtf8 (.text body) = some text → text = body) {start final : Workspace σ}
    {events : List Scheduled} {outputs : List Unit} (unstarted : Unstarted graphId start)
    (recited : Recited codec graphId start events)
    (honest : (graphActivities codec graphId).Along (fun _ event => event.Honest) start events)
    (ran : (graphActivities codec graphId).run start events = some (final, outputs)) (version : OutputVersion) :
    ¬ Relation.TransGen (Cites final.db) version version := by
  obtain ⟨records, assigned⟩ := recited
  have chronicled : ∃ placed, Chronicle codec graphId records placed final := by
    refine (graphActivities codec graphId).run_invariant_along
      (fun state => ∃ placed, Chronicle codec graphId records placed state) ⟨[], .start unstarted⟩ ?_
      ((graphActivities codec graphId).along_and honest assigned) ran
    intro state event next more held met stepped
    obtain ⟨placed, chronicle⟩ := held
    obtain ⟨truthful, own⟩ := met
    cases stepped
    rcases step_cases codec graphId state event with ⟨⟨made, adds⟩, rows⟩ |
      ⟨body, citations, persists, passes, ⟨made, opened, adds, sets⟩, -⟩
    · exact ⟨placed, chronicle.keeps reads truthful adds rows⟩
    · exact ⟨_, chronicle.places faithful reads truthful persists (own body citations persists passes) passes adds sets⟩
  obtain ⟨placed, chronicle⟩ := chronicled
  exact acyclic_of_older chronicle.rows version

end Run

section Examples

private def reporter : AgentId := ⟨⟨1⟩⟩

private def digester : AgentId := ⟨⟨2⟩⟩

private def digestCodec : Codec := listedCodec [("Facts.", "f1"), ("Digest.", "d1")] [reporter, digester]

private theorem digestCodec_faithful : Faithful digestCodec where
  fromSlice _ := rfl
  fromValue id other read := by
    have found : [reporter, digester].find? (fun agent => decide (agent.toJson = id.toJson)) = some other := read
    have same : other.toJson = id.toJson := by simpa using List.find?_some found
    obtain ⟨uuid⟩ := id
    obtain ⟨others⟩ := other
    exact congrArg AgentId.mk (hyphenated_injective (Json.string.inj same))

private def bureau : Workspace MemoryStorage where
  files := ⟨∅⟩
  db := ⟨[⟨⟨⟨0⟩⟩, "news", .null⟩], [⟨reporter, ⟨⟨0⟩⟩, "reporter"⟩, ⟨digester, ⟨⟨0⟩⟩, "digester"⟩], [(digester, reporter)],
    [], ∅, []⟩
  log := []

private theorem bureau_unstarted : Unstarted ⟨⟨0⟩⟩ bureau where
  evidence agentId path := by
    unfold citedBytes
    split <;> rfl
  citations := rfl
  outputs _ := rfl

private def wire : Except String ToolRegistry := ToolRegistry.new.ofServers [(["web"], [("search", fun _ => .ok .null)])]

private def lookingUp : ToolCall where
  name := "search"
  args := .null
  claimSeed := "what is known"
  toolUseId := none

private def idle : Clock := fun _ => ⟨0⟩

private def factPath : String :=
  evidenceRelpath lookingUp.claimSeed (EvidenceRecord.new lookingUp.name lookingUp.args .null (idle 0)).id

private def reported : ReconcileSource := ⟨⟨"reporter", reporter⟩, .new "Facts."⟩

private def digestFold : Fold := ⟨digester, reported, "Facts.", ⟨0⟩⟩

private def newsRun : List Scheduled :=
  [⟨reporter, .executeTool wire ["web"] lookingUp, idle, 5, 0⟩,
    ⟨reporter, .persistOutput "Facts." [factPath], idle, 4, 2⟩,
    ⟨digester, .reconcileChildren [reported] none ⟨0⟩, idle, 2, 0⟩,
    ⟨digester, .persistOutput "Digest." [digestFold.relpath digestCodec], idle, 4, 2⟩]

private def afterLookup : Workspace MemoryStorage :=
  bureau.step digestCodec ⟨⟨0⟩⟩ ⟨reporter, .executeTool wire ["web"] lookingUp, idle, 5, 0⟩

private def afterFacts : Workspace MemoryStorage :=
  afterLookup.step digestCodec ⟨⟨0⟩⟩ ⟨reporter, .persistOutput "Facts." [factPath], idle, 4, 2⟩

private def afterFold : Workspace MemoryStorage :=
  afterFacts.step digestCodec ⟨⟨0⟩⟩ ⟨digester, .reconcileChildren [reported] none ⟨0⟩, idle, 2, 0⟩

private def digestVersion : OutputVersion := ⟨digester, ⟨"d1"⟩⟩

private def factVersion : OutputVersion := ⟨reporter, ⟨"f1"⟩⟩

private theorem newsRun_recited : Recited digestCodec ⟨⟨0⟩⟩ bureau newsRun := by
  refine ⟨fun version => if version = factVersion then recordsOf [factPath] else recordsOf [digestFold.relpath digestCodec], ?_⟩
  apply (graphActivities digestCodec ⟨⟨0⟩⟩).along_of_mem
  intro event member state body citations persists _
  simp only [newsRun, List.mem_cons, List.not_mem_nil, or_false] at member
  rcases member with rfl | rfl | rfl | rfl <;> cases persists
  · exact if_pos (by decide)
  · exact if_neg (by decide)

private theorem newsRun_honest :
    (graphActivities digestCodec ⟨⟨0⟩⟩).Along (fun _ event => event.Honest) bureau newsRun := by
  apply (graphActivities digestCodec ⟨⟨0⟩⟩).along_of_mem
  intro event member state
  simp only [newsRun, List.mem_cons, List.not_mem_nil, or_false] at member
  rcases member with rfl | rfl | rfl | rfl
  · exact fun named => absurd named (by decide)
  · trivial
  · trivial
  · trivial

/-- The digest cites the facts that it folded, and nothing leads back to it. -/
theorem provenance_acyclic_news : ∃ final outputs,
    (graphActivities digestCodec ⟨⟨0⟩⟩).run bureau newsRun = some (final, outputs) ∧
      Cites final.db digestVersion factVersion ∧ ¬ Relation.TransGen (Cites final.db) digestVersion digestVersion := by
  have first : bureau.db.agents ⊆ afterLookup.db.agents := step_agents bureau _
  have second : afterLookup.db.agents ⊆ afterFacts.db.agents := step_agents afterLookup _
  have third : afterFacts.db.agents ⊆ afterFold.db.agents := step_agents afterFacts _
  have recorded : citedBytes (.openForAgent ⟨⟨0⟩⟩ reporter) afterLookup.files factPath =
      some (.evidence (.new lookingUp.name lookingUp.args .null (idle 0))) ∧ afterLookup.db = bureau.db := by
    obtain ⟨found, db, -⟩ := @tool_recorded MemoryStorage _ _ MemoryStorage.footing digestCodec ⟨⟨0⟩⟩ reporter bureau
      wire ["web"] lookingUp idle .null (MemoryStorage.houses _) memory_frees trivial (by rfl)
      (bureau_unstarted.evidence reporter)
    exact ⟨found, db⟩
  have own : resolveRecord digestCodec reporter factPath (.evidence (.new lookingUp.name lookingUp.args .null (idle 0))) =
      .ok (reporter, factPath, digestCodec.ofBytes (.evidence (.new lookingUp.name lookingUp.args .null (idle 0)))) := by rfl
  obtain ⟨row, -⟩ := @output_cited MemoryStorage _ _ MemoryStorage.footing digestCodec ⟨⟨0⟩⟩ reporter afterLookup "Facts."
    factPath _ idle _ reporter _ (MemoryStorage.houses _) (MemoryStorage.finds _ _) trivial
    (first (by decide)) (first (by decide)) recorded.1 own
  have placed : viewAt afterFacts.files ((AgentFs.openForAgent ⟨⟨0⟩⟩ reporter).key CANONICAL_OUTPUT) = some (.text "Facts.") :=
    output_placed rfl (by rw [recorded.2]; exact List.not_mem_nil) row
  have blank : citedBytes (.openForAgent ⟨⟨0⟩⟩ digester) afterFacts.files (digestFold.relpath digestCodec) = none := by
    have apart : reporter ≠ digester := by decide
    unfold afterFacts afterLookup
    rw [step_unread _ apart, step_unread _ apart]
    exact bureau_unstarted.evidence digester _
  have found : citedBytes (.openForAgent ⟨⟨0⟩⟩ digester) afterFold.files (digestFold.relpath digestCodec) =
      some (.evidence (digestFold.record digestCodec)) :=
    (@output_folded MemoryStorage _ _ MemoryStorage.footing digestCodec ⟨⟨0⟩⟩ digester afterFacts reported "Facts." ⟨0⟩ idle
      (MemoryStorage.houses _) (MemoryStorage.houses _) memory_frees trivial rfl placed blank).1
  have pinned : resolveRecord digestCodec digester (digestFold.relpath digestCodec)
      (.evidence (digestFold.record digestCodec)) = .ok (reporter, CANONICAL_OUTPUT, ⟨"f1"⟩) := by rfl
  obtain ⟨member, -⟩ := @output_cited MemoryStorage _ _ MemoryStorage.footing digestCodec ⟨⟨0⟩⟩ digester afterFold "Digest."
    (digestFold.relpath digestCodec) _ idle _ reporter _ (MemoryStorage.houses _) (MemoryStorage.finds _ _) trivial
    (third (second (first (by decide)))) (third (second (first (by decide)))) found pinned
  have version : digestCodec.ofBytes (.text "Digest.") = ⟨"d1"⟩ := by decide
  rw [version] at member
  refine ⟨afterFold.step digestCodec ⟨⟨0⟩⟩ ⟨digester, .persistOutput "Digest." [digestFold.relpath digestCodec], idle, 4, 2⟩, [],
    rfl, ⟨_, member, rfl, rfl, rfl⟩, ?_⟩
  refine provenance_acyclic digestCodec_faithful (fun body text read => ?_) bureau_unstarted newsRun_recited newsRun_honest
    rfl digestVersion
  exact (Option.some.inj read).symm

end Examples

end Coral.Proofs

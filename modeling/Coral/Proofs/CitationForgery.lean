import Coral.Proofs.GraphActivities
import Coral.Proofs.LastingStorage

/-! Who a citation may name. A record counts as a fold by the name of its tool alone, so an
agent cites what it has folded as long as no tool goes by that name. -/

namespace Coral.Proofs
open Coral.Library Coral.Temporal LawfulStorage

/-- What is read off a file, or off a value, is what it was written from. -/
structure Faithful (codec : Codec) : Prop where
  fromSlice : ∀ record, codec.fromSlice (.evidence record) = some record
  fromValue : ∀ id other : AgentId, codec.fromValue id.toJson = some other → other = id

/-- No tool that is called `reconcile` answers. -/
def Scheduled.Honest (event : Scheduled) : Prop :=
  match event.activity with
  | .executeTool registry allowedTools call => call.name = "reconcile" →
    (dispatchTool registry allowedTools call (event.clock 0)).toOption = none
  | _ => True

/-- The row was cited from a record that a fold by the citing agent wrote, and names the
child and the version that the fold read. -/
def Backed (codec : Codec) (log : List Entry) (row : Citation) : Prop :=
  ∃ path fold, Entry.cited path row ∈ log ∧ Entry.folded fold ∈ log ∧ fold.parent = row.citingAgentId ∧
    AgentFs.evidenceRelpathChecked path = .ok (fold.relpath codec) ∧
    row.citedAgentId = fold.source.childRef.agentId ∧ row.citedBlobSha = codec.ofBytes (.text fold.body)

section Run

variable {σ : Type} [AgentStorage σ] [LawfulStorage σ] {codec : Codec} {graphId : GraphId}

/-- No agent has evidence yet, and nothing is cited. -/
structure Pristine (graphId : GraphId) (state : Workspace σ) : Prop where
  evidence : ∀ agentId path, citedBytes (.openForAgent graphId agentId) state.files path = none
  citations : state.db.citations = []

structure Sound (codec : Codec) (graphId : GraphId) (state : Workspace σ) : Prop where
  evidence : ∀ agentId path bytes, citedBytes (.openForAgent graphId agentId) state.files path = some bytes →
    ∃ record, bytes = .evidence record ∧ (record.tool = "reconcile" → ∃ fold, Entry.folded fold ∈ state.log ∧
      fold.parent = agentId ∧ AgentFs.evidenceRelpathChecked path = .ok (fold.relpath codec) ∧ record = fold.record codec)
  rows : ∀ row ∈ state.db.citations, row.citedAgentId ≠ row.citingAgentId → Backed codec state.log row

theorem Pristine.sound {state : Workspace σ} (pristine : Pristine graphId state) : Sound codec graphId state where
  evidence agentId path bytes found := by
    rw [pristine.evidence] at found
    cases found
  rows row member := by
    rw [pristine.citations] at member
    cases member

omit [AgentStorage σ] [LawfulStorage σ] in
theorem Backed.extend {log more : List Entry} {row : Citation} (backed : Backed codec log row) :
    Backed codec (log ++ more) row := by
  obtain ⟨path, fold, cited, folded, rest⟩ := backed
  exact ⟨path, fold, List.mem_append_left _ cited, List.mem_append_left _ folded, rest⟩

theorem step_log (state : Workspace σ) (event : Scheduled) :
    ∃ more, (state.step codec graphId event).log = state.log ++ more := by
  obtain ⟨agentId, activity, clock, writes, calls⟩ := event
  cases activity with
  | persistOutput body citations => exact ⟨_, rfl⟩
  | reconcileChildren sources conflict now => exact ⟨_, rfl⟩
  | _ => exact ⟨[], (List.append_nil _).symm⟩

theorem row_some {call : PersistCall} {storage : σ} {path : String} {row : Citation}
    (named : call.row codec storage path = some row) :
    row.citingAgentId = call.agentId ∧ ∃ bytes, citedBytes call.fs storage path = some bytes ∧
      resolveRecord codec call.agentId path bytes = .ok (row.citedAgentId, row.citedFilepath, row.citedBlobSha) := by
  unfold PersistCall.row at named
  obtain ⟨bytes, found, named⟩ := Option.bind_eq_some_iff.mp named
  obtain ⟨⟨agent, filepath, sha⟩, resolved, named⟩ := Option.bind_eq_some_iff.mp named
  cases named
  exact ⟨rfl, bytes, found, ok_of_toOption resolved⟩

omit [AgentStorage σ] [LawfulStorage σ] in
/-- Only a record of a fold names another agent. -/
theorem resolveRecord_other (faithful : Faithful codec) {agentId cited : AgentId} {path filepath : String}
    {record : EvidenceRecord} {sha : BlobSha} (other : cited ≠ agentId)
    (resolved : resolveRecord codec agentId path (.evidence record) = .ok (cited, filepath, sha)) :
    record.tool = "reconcile" ∧ ∀ fold : Fold, record = fold.record codec →
      cited = fold.source.childRef.agentId ∧ sha = codec.ofBytes (.text fold.body) := by
  unfold resolveRecord at resolved
  rw [faithful.fromSlice] at resolved
  simp only at resolved
  split at resolved
  · rename_i tool
    refine ⟨tool, ?_⟩
    rintro fold rfl
    have child : (fold.record codec).args.get? "child_agent_id" = some fold.source.childRef.agentId.toJson := by
      simp [Fold.record, foldRecord, EvidenceRecord.new, Json.get?]
    have pinned : (fold.record codec).args.get? "child_output_blob_sha" =
        some (.string (codec.ofBytes (.text fold.body)).hex) := by
      simp [Fold.record, foldRecord, EvidenceRecord.new, Json.get?]
    rw [child, pinned] at resolved
    simp only [Option.bind_some, Json.asStr] at resolved
    split at resolved
    · cases resolved
    · rename_i named
      cases resolved
      exact ⟨faithful.fromValue _ _ named, rfl⟩
  · cases resolved
    exact (other rfl).elim

/-- What an honest activity makes of a `reconcile` record is a fold, and in the log. -/
theorem made_folded {state : Workspace σ} {event : Scheduled} {agentId : AgentId} {path rel : String}
    {record : EvidenceRecord} (honest : event.Honest) (checked : AgentFs.evidenceRelpathChecked path = .ok rel)
    (made : event.Makes codec graphId (⟨state.files, event.writes, []⟩ : Stopping σ) agentId rel record)
    (written : citedBytes (.openForAgent graphId agentId) (state.step codec graphId event).files path =
      some (.evidence record)) (tool : record.tool = "reconcile") :
    ∃ fold, Entry.folded fold ∈ (state.step codec graphId event).log ∧ fold.parent = agentId ∧
      AgentFs.evidenceRelpathChecked path = .ok (fold.relpath codec) ∧ record = fold.record codec := by
  obtain ⟨eventAgent, activity, clock, writes, calls⟩ := event
  cases activity with
  | executeTool registry allowedTools call =>
    change dispatchTool registry allowedTools call (clock 0) = .ok record at made
    obtain ⟨answer, same⟩ := dispatchTool_ok made
    have refused : (dispatchTool registry allowedTools call (clock 0)).toOption = none := by
      apply honest
      rw [← tool, same]
      rfl
    rw [made] at refused
    cases refused
  | reconcileChildren sources conflict now =>
    obtain ⟨fold, among, agent, here, same⟩ := made
    have place : viewAt (Workspace.step codec graphId state ⟨eventAgent, .reconcileChildren sources conflict now, clock,
        writes, calls⟩).files ((AgentFs.openForAgent graphId fold.parent).key (fold.relpath codec)) =
          some (.evidence (fold.record codec)) := by
      rw [← agent, ← here, ← same, ← written]
      unfold citedBytes
      rw [checked]
    refine ⟨fold, ?_, agent.symm, ?_, same⟩
    · apply List.mem_append_right
      exact (mem_foldedEntries codec graphId).mpr ⟨among, place⟩
    · rw [checked, here]
  | _ => exact made.elim

/-- A row that is new is the citation of a record that is in place. -/
theorem cited_row {state : Workspace σ} {event : Scheduled} {row : Citation}
    (fresh : row ∉ state.db.citations) (member : row ∈ (state.step codec graphId event).db.citations) :
    ∃ body citations path bytes, event.activity = .persistOutput body citations ∧ path ∈ citations ∧
      row.citingAgentId = event.agentId ∧ Entry.cited path row ∈ (state.step codec graphId event).log ∧
      citedBytes (.openForAgent graphId row.citingAgentId) state.files path = some bytes ∧
      resolveRecord codec row.citingAgentId path bytes = .ok (row.citedAgentId, row.citedFilepath, row.citedBlobSha) := by
  obtain ⟨agentId, activity, clock, writes, calls⟩ := event
  cases activity with
  | persistOutput body citations =>
    unfold Workspace.step at member ⊢
    simp only at member ⊢
    generalize ran : persistOutputImpl codec clock agentId (FsHandle.forAgent graphId agentId).storagePrefix body citations
      (⟨state.files, writes, []⟩ : Stopping σ) (⟨state.db, calls⟩ : FaultyDb) = ended at member ⊢
    obtain ⟨result, after, final⟩ := ended
    let call : PersistCall := ⟨agentId, (FsHandle.forAgent graphId agentId).storagePrefix, body, citations⟩
    obtain ⟨partway, -⟩ := @persistOutputImpl_spec (Stopping σ) _ _ codec call (Stopping σ) _ id through_id _ _ _ _ _ _ ran
    rcases partway.added row member with earlier | ⟨path, among, named⟩
    · exact (fresh earlier).elim
    · obtain ⟨agent, bytes, found, resolved⟩ := row_some named
      have whole : call.fs = .openForAgent graphId agentId := attach_forAgent graphId agentId
      have later : call.row codec after.storage path = some row := by
        rw [← named]
        exact row_congr (partway.evidence path)
      rw [whole] at found
      rw [agent]
      refine ⟨body, citations, path, bytes, rfl, among, rfl, ?_, found, resolved⟩
      exact List.mem_append_right _ (mem_citedEntries codec among later member)
  | registerChild childAgentName childTools childAgentId =>
    unfold Workspace.step at member
    simp only at member
    generalize registered : registerChildImpl graphId agentId childAgentName childTools childAgentId
      (⟨state.db, calls⟩ : FaultyDb) = ended at member
    obtain ⟨result, after⟩ := ended
    rw [(registerChildImpl_keeps registered).1] at member
    exact (fresh member).elim
  | _ => exact (fresh member).elim

theorem Sound.step (faithful : Faithful codec) {state : Workspace σ} {event : Scheduled}
    (sound : Sound codec graphId state) (honest : event.Honest) : Sound codec graphId (state.step codec graphId event) := by
  obtain ⟨more, log⟩ : ∃ more, (state.step codec graphId event).log = state.log ++ more := step_log state event
  constructor
  · intro agentId path bytes found
    rcases newEvidence_step state event agentId path with same | ⟨rel, record, checked, made, written⟩
    · rw [same] at found
      obtain ⟨record, whole, folded⟩ := sound.evidence agentId path bytes found
      refine ⟨record, whole, ?_⟩
      intro tool
      obtain ⟨fold, logged, rest⟩ := folded tool
      rw [log]
      exact ⟨fold, List.mem_append_left _ logged, rest⟩
    · refine ⟨record, ?_, fun tool => made_folded honest checked made written tool⟩
      rw [written] at found
      exact (Option.some.inj found).symm
  · intro row member other
    by_cases earlier : row ∈ state.db.citations
    · rw [log]
      exact (sound.rows row earlier other).extend
    · obtain ⟨-, -, path, bytes, -, -, -, cited, found, resolved⟩ := cited_row earlier member
      obtain ⟨record, rfl, folded⟩ := sound.evidence _ path bytes found
      obtain ⟨tool, fold_of⟩ := resolveRecord_other faithful other resolved
      obtain ⟨fold, logged, parent, checked, same⟩ := folded tool
      obtain ⟨child, sha⟩ := fold_of fold same
      refine ⟨path, fold, cited, ?_, parent, checked, child, sha⟩
      rw [log]
      exact List.mem_append_left _ logged

/-- As long as no tool called `reconcile` answers, only what the agent itself has folded is
cited across agents, at the version that it read. -/
theorem citations_backed (faithful : Faithful codec) {start final : Workspace σ} {events : List Scheduled}
    {outputs : List Unit} (pristine : Pristine graphId start)
    (honest : (graphActivities codec graphId).Along (fun _ event => event.Honest) start events)
    (ran : (graphActivities codec graphId).run start events = some (final, outputs)) :
    ∀ row ∈ final.db.citations, row.citedAgentId ≠ row.citingAgentId → Backed codec final.log row := by
  have sound : Sound codec graphId final := by
    refine (graphActivities codec graphId).run_invariant_along (Sound codec graphId) pristine.sound ?_ honest ran
    intro state event next more sound met stepped
    cases stepped
    exact sound.step faithful met
  exact sound.rows

end Run

section Standing

variable {σ : Type} [AgentStorage σ] [LawfulStorage σ] {footing : Footing σ} {codec : Codec} {graphId : GraphId}
  {agentId : AgentId} {state : Workspace σ}

theorem record_absent {storage : σ} {tool slugSeed : String} {args result : Json} {now : DateTime}
    (absent : citedBytes (.openForAgent graphId agentId) storage
      (evidenceRelpath slugSeed (EvidenceRecord.new tool args result now).id) = none) :
    viewAt storage ((AgentFs.openForAgent graphId agentId).key
      (evidenceRelpath slugSeed (EvidenceRecord.new tool args result now).id)) = none := by
  unfold citedBytes at absent
  rw [relpath_checked] at absent
  exact absent

/-- A tool call that is allowed and answered leaves its record. -/
theorem tool_recorded {registry : Except String ToolRegistry} {allowedTools : List String} {call : ToolCall}
    {clock : Clock} {answer : Json} (housed : footing.Houses (.openForAgent graphId agentId)) (frees : footing.Frees)
    (alive : footing.lasts state.files 5)
    (dispatched : dispatchTool registry allowedTools call (clock 0) = .ok (.new call.name call.args answer (clock 0)))
    (absent : ∀ path, citedBytes (.openForAgent graphId agentId) state.files path = none) :
    let after := state.step codec graphId ⟨agentId, .executeTool registry allowedTools call, clock, 5, 0⟩
    citedBytes (.openForAgent graphId agentId) after.files
        (evidenceRelpath call.claimSeed (EvidenceRecord.new call.name call.args answer (clock 0)).id) =
          some (.evidence (.new call.name call.args answer (clock 0))) ∧
      after.db = state.db ∧ after.log = state.log ∧ footing.lasts after.files 0 := by
  obtain ⟨opened, opening, two⟩ := Footing.opens placeholderMandate (fun reading => clock (reading + 1))
    (show footing.stopping.Houses (.attach (FsHandle.forAgent graphId agentId).storagePrefix) by
      rw [attach_forAgent]
      exact housed.stopping)
    (show footing.stopping.lasts (⟨state.files, 5, []⟩ : Stopping σ) 5 from ⟨le_refl 5, alive⟩)
  have free : vacant opened.storage ((AgentFs.openForAgent graphId agentId).key
      (evidenceRelpath call.claimSeed (EvidenceRecord.new call.name call.args answer (clock 0)).id)) := by
    apply frees _ _ _ two.2 (housed.recorded ⟨call.name, call.args, answer, clock 0, call.claimSeed, clock 0⟩)
    apply record_absent
    rw [← citedBytes_stopping, sameEvidence_open opening, citedBytes_stopping]
    exact absent _
  rw [attach_forAgent] at opening
  obtain ⟨after, recorded, left, written⟩ := Footing.records call.name call.claimSeed call.args answer (clock 0) (clock 3)
    housed.stopping two (show vacant opened _ from free)
  have ran : executeTool (FsHandle.forAgent graphId agentId) registry allowedTools call clock
      (⟨state.files, 5, []⟩ : Stopping σ) = (.ok (.success (evidenceRelpath call.claimSeed
        (EvidenceRecord.new call.name call.args answer (clock 0)).id)), after) := by
    unfold executeTool
    rw [dispatched]
    simp only
    rw [opening]
    simp only
    rw [recorded]
  have files : (state.step codec graphId ⟨agentId, .executeTool registry allowedTools call, clock, 5, 0⟩).files =
      after.storage := congrArg (fun ended => ended.2.storage) ran
  refine ⟨?_, rfl, rfl, ?_⟩
  · rw [files]
    unfold citedBytes
    rw [relpath_checked]
    exact written
  · rw [files]
    exact left.2

/-- A child's output that is there is folded. -/
theorem output_folded {source : ReconcileSource} {body : String} {now : DateTime} {clock : Clock}
    (housed : footing.Houses (.openForAgent graphId agentId))
    (below : footing.Houses (.openForAgent graphId source.childRef.agentId)) (frees : footing.Frees)
    (alive : footing.lasts state.files 2) (reads : codec.fromUtf8 (.text body) = some body)
    (output : viewAt state.files ((AgentFs.openForAgent graphId source.childRef.agentId).key CANONICAL_OUTPUT) =
      some (.text body))
    (absent : citedBytes (.openForAgent graphId agentId) state.files ((⟨agentId, source, body, now⟩ : Fold).relpath codec) =
      none) :
    let fold : Fold := ⟨agentId, source, body, now⟩
    let after := state.step codec graphId ⟨agentId, .reconcileChildren [source] none now, clock, 2, 0⟩
    citedBytes (.openForAgent graphId agentId) after.files (fold.relpath codec) = some (.evidence (fold.record codec)) ∧
      after.db = state.db ∧ footing.lasts after.files 0 := by
  let files : Stopping σ := ⟨state.files, 2, []⟩
  have going : footing.stopping.lasts files 2 := ⟨le_refl 2, alive⟩
  have read : readChildOutputs codec graphId files [source] = .ok [(source, body)] := by
    unfold readChildOutputs readChildOutput
    simp only [Footing.get_view going (below.stopping.written CANONICAL_OUTPUT List.mem_cons_self)]
    rw [show viewAt files ((AgentFs.openForAgent graphId source.childRef.agentId).key CANONICAL_OUTPUT) =
      some (.text body) from output]
    simp only [reads]
    rfl
  let fold : Fold := ⟨agentId, source, body, now⟩
  have free : vacant state.files ((AgentFs.openForAgent graphId agentId).key (fold.relpath codec)) :=
    frees _ _ _ alive (housed.recorded ⟨"reconcile", (fold.record codec).args, .string body, now, foldSeed source, now⟩)
      (record_absent absent)
  obtain ⟨after, recorded, left, written⟩ := Footing.records "reconcile" (foldSeed source)
    (.object [("child_agent_id", source.childRef.agentId.toJson),
      ("child_output_blob_sha", .string (codec.ofBytes (.text body)).hex),
      ("child_workflow_id", .string source.childRef.workflowId), ("source_output_id", source.outputId.toJson)])
    (.string body) now (clock 0) housed.stopping (show footing.stopping.lasts files (0 + 2) from going)
    (show vacant files _ from free)
  have ran : reconcileChildrenImpl codec ⟨graphId, agentId, [source], none⟩ now clock files =
      (.ok ⟨[fold.relpath codec], none⟩, after) := by
    unfold reconcileChildrenImpl
    simp only
    rw [read]
    simp only [writeFolds, foldRecord]
    rw [recorded]
    rfl
  have stepped : (state.step codec graphId ⟨agentId, .reconcileChildren [source] none now, clock, 2, 0⟩).files =
      after.storage := congrArg (fun ended => ended.2.storage) ran
  have checked : AgentFs.evidenceRelpathChecked (fold.relpath codec) = .ok (fold.relpath codec) :=
    relpath_checked _ _ _ _ _
  refine ⟨?_, rfl, ?_⟩
  · rw [stepped]
    unfold citedBytes
    rw [checked]
    exact written
  · rw [stepped]
    exact left.2

/-- An output that cites a record of another agent's version leaves that row. -/
theorem output_cited {body path filepath : String} {clock : Clock} {bytes : Content} {cited : AgentId} {sha : BlobSha}
    (housed : footing.Houses (.openForAgent graphId agentId))
    (finds : footing.Finds (.openForAgent graphId agentId) [path]) (alive : footing.lasts state.files 4)
    (citing : agentId ∈ state.db.agents) (known : cited ∈ state.db.agents)
    (found : citedBytes (.openForAgent graphId agentId) state.files path = some bytes)
    (resolved : resolveRecord codec agentId path bytes = .ok (cited, filepath, sha)) :
    let after := state.step codec graphId ⟨agentId, .persistOutput body [path], clock, 4, 2⟩
    (⟨agentId, CANONICAL_OUTPUT, codec.ofBytes (.text body), cited, filepath, sha⟩ : Citation) ∈
        after.db.citations ∧ ∀ fold, Entry.folded fold ∈ after.log → Entry.folded fold ∈ state.log := by
  let call : PersistCall := ⟨agentId, (FsHandle.forAgent graphId agentId).storagePrefix, body, [path]⟩
  let files : Stopping σ := ⟨state.files, 4, []⟩
  have own : call.fs = .openForAgent graphId agentId := attach_forAgent graphId agentId
  rw [← own] at housed finds found
  have pinned : ∀ other ∈ [path], Pins codec (LastingDb.knows (⟨state.db, 2⟩ : FaultyDb)) call.fs agentId files other := by
    intro other member
    obtain rfl := List.mem_singleton.mp member
    exact ⟨bytes, cited, filepath, sha, found, resolved, known⟩
  obtain ⟨after, final, ran, -⟩ := Footing.persists clock body (List.cons_ne_nil path []) housed.stopping
    (show footing.stopping.Finds call.fs [path] from finds)
    (show footing.stopping.lasts files (0 + 4) from ⟨le_refl 4, alive⟩)
    (show LastingDb.lasts (⟨state.db, 2⟩ : FaultyDb) 2 from le_refl 2) citing pinned
  obtain ⟨partway, whole, -⟩ := @persistOutputImpl_spec (Stopping σ) _ _ codec call (Stopping σ) _ id through_id _ _ _ _ _ _
    ran
  obtain ⟨row, member, named⟩ := (whole _ rfl).2.cited path (List.mem_singleton.mpr rfl)
  have here : call.row codec after path =
      some ⟨agentId, CANONICAL_OUTPUT, codec.ofBytes (.text body), cited, filepath, sha⟩ := by
    have same : call.row codec after path = call.row codec files path := row_congr (partway.evidence path)
    rw [same]
    unfold PersistCall.row
    rw [citedBytes_stopping, show citedBytes call.fs files.storage path = some bytes from found]
    simp only [Option.bind_eq_bind, Option.bind_some, call, resolved]
    rfl
  have same := named.symm.trans here
  cases same
  have stepped : state.step codec graphId ⟨agentId, .persistOutput body [path], clock, 4, 2⟩ =
      ⟨after.storage, final.db, state.log ++ citedEntries codec call after.storage final.db⟩ := by
    have ended : persistOutputImpl codec clock agentId (FsHandle.forAgent graphId agentId).storagePrefix body [path]
        (⟨state.files, 4, []⟩ : Stopping σ) (⟨state.db, 2⟩ : FaultyDb) = (.ok (.new body), after, final) := ran
    unfold Workspace.step
    simp only [ended]
    rfl
  simp only [stepped]
  refine ⟨member, ?_⟩
  intro fold logged
  rcases List.mem_append.mp logged with earlier | new
  · exact earlier
  · unfold citedEntries at new
    obtain ⟨other, -, entry⟩ := List.mem_filterMap.mp new
    obtain ⟨row, -, entry⟩ := Option.bind_eq_some_iff.mp entry
    split at entry <;> cases entry

theorem memory_frees : MemoryStorage.footing.Frees := fun _ _ _ _ _ bare => bare

end Standing

section Examples

private def editor : AgentId := ⟨⟨1⟩⟩

private def writer : AgentId := ⟨⟨2⟩⟩

private def spoken : Codec := listedCodec [("Yes.", "fa15caba05f4613780ff1fc50c1709b4395a0710")] [editor, writer]

private theorem spoken_faithful : Faithful spoken where
  fromSlice _ := rfl
  fromValue id other read := by
    have found : [editor, writer].find? (fun agent => decide (agent.toJson = id.toJson)) = some other := read
    have same : other.toJson = id.toJson := by simpa using List.find?_some found
    obtain ⟨uuid⟩ := id
    obtain ⟨others⟩ := other
    exact congrArg AgentId.mk (hyphenated_injective (Json.string.inj same))

/-- The writer's output is there, and nobody has evidence. -/
private def press : Workspace MemoryStorage where
  files := ⟨(∅ : AList fun _ : String => Content).insert ((AgentFs.openForAgent ⟨⟨0⟩⟩ writer).key CANONICAL_OUTPUT)
    (.text "Yes.")⟩
  db := ⟨[⟨⟨⟨0⟩⟩, "press", .null⟩], [⟨editor, ⟨⟨0⟩⟩, "editor"⟩, ⟨writer, ⟨⟨0⟩⟩, "writer"⟩], [(editor, writer)], [], ∅, []⟩
  log := []

private theorem press_written : AgentFs.put (⟨∅⟩ : MemoryStorage)
    ((AgentFs.openForAgent ⟨⟨0⟩⟩ writer).key CANONICAL_OUTPUT) (.text "Yes.") = .ok press.files := rfl

private theorem press_pristine : Pristine ⟨⟨0⟩⟩ press where
  evidence agentId path := by
    have same : SameEvidence ⟨⟨0⟩⟩ (⟨∅⟩ : MemoryStorage) press.files := sameEvidence_put press_written (.inl (by decide))
    rw [same agentId path]
    unfold citedBytes
    split <;> rfl
  citations := rfl

private def impostor : Except String ToolRegistry :=
  ToolRegistry.new.ofServers [(["web"], [("reconcile", fun _ => .ok .null)])]

private def forging : ToolCall where
  name := "reconcile"
  args := .object [("child_agent_id", writer.toJson), ("child_output_blob_sha", .string "00")]
  claimSeed := "the writer agrees"
  toolUseId := none

private def epoch : Clock := fun _ => ⟨0⟩

private def forgedPath : String :=
  evidenceRelpath forging.claimSeed (EvidenceRecord.new forging.name forging.args .null (epoch 0)).id

private def forgedRun : List Scheduled :=
  [⟨editor, .executeTool impostor ["web"] forging, epoch, 5, 0⟩,
    ⟨editor, .persistOutput "Yes." [forgedPath], epoch, 4, 2⟩]

/-- A server advertises a tool called `reconcile`. Its record, with arguments of the
model's choice, makes a row of an agent that nobody has folded. -/
theorem forged_citation : ∃ final outputs, (graphActivities spoken ⟨⟨0⟩⟩).run press forgedRun = some (final, outputs) ∧
    ¬ ∀ row ∈ final.db.citations, row.citedAgentId ≠ row.citingAgentId → Backed spoken final.log row := by
  obtain ⟨recorded, db, log, -⟩ := @tool_recorded MemoryStorage _ _ MemoryStorage.footing spoken ⟨⟨0⟩⟩ editor press
    impostor ["web"] forging epoch .null (MemoryStorage.houses _) memory_frees trivial (by rfl)
    (press_pristine.evidence editor)
  have resolved : resolveRecord spoken editor forgedPath (.evidence (.new forging.name forging.args .null (epoch 0))) =
      .ok (writer, CANONICAL_OUTPUT, ⟨"00"⟩) := by rfl
  obtain ⟨member, unfolded⟩ := @output_cited MemoryStorage _ _ MemoryStorage.footing spoken ⟨⟨0⟩⟩ editor _ "Yes."
    forgedPath _ epoch _ writer ⟨"00"⟩ (MemoryStorage.houses _) (MemoryStorage.finds _ _) trivial
    (by rw [db]; decide) (by rw [db]; decide) recorded resolved
  refine ⟨_, _, rfl, ?_⟩
  intro backed
  obtain ⟨-, fold, -, folded, -⟩ := backed _ member (by decide)
  have earlier := unfolded fold folded
  rw [log] at earlier
  cases earlier

private def folding : ReconcileSource := ⟨⟨"writer", writer⟩, .new "Yes."⟩

private def foldedPath : String := (⟨editor, folding, "Yes.", ⟨0⟩⟩ : Fold).relpath spoken

private def foldedRun : List Scheduled :=
  [⟨editor, .reconcileChildren [folding] none ⟨0⟩, epoch, 2, 0⟩,
    ⟨editor, .persistOutput "Yes." [foldedPath], epoch, 4, 2⟩]

/-- The editor folds what the writer has written, and cites it. -/
theorem citations_backed_by_fold : ∃ final outputs row,
    (graphActivities spoken ⟨⟨0⟩⟩).run press foldedRun = some (final, outputs) ∧ row ∈ final.db.citations ∧
      row.citedAgentId ≠ row.citingAgentId ∧ Backed spoken final.log row := by
  obtain ⟨recorded, db, -⟩ := @output_folded MemoryStorage _ _ MemoryStorage.footing spoken ⟨⟨0⟩⟩ editor press folding
    "Yes." ⟨0⟩ epoch (MemoryStorage.houses _) (MemoryStorage.houses _) memory_frees trivial rfl
    (put_spec press_written).2.at_key (press_pristine.evidence editor _)
  have resolved : resolveRecord spoken editor foldedPath
      (.evidence ((⟨editor, folding, "Yes.", ⟨0⟩⟩ : Fold).record spoken)) =
      .ok (writer, CANONICAL_OUTPUT, ⟨"fa15caba05f4613780ff1fc50c1709b4395a0710"⟩) := by rfl
  obtain ⟨member, -⟩ := @output_cited MemoryStorage _ _ MemoryStorage.footing spoken ⟨⟨0⟩⟩ editor _ "Yes."
    foldedPath _ epoch _ writer _ (MemoryStorage.houses _) (MemoryStorage.finds _ _) trivial
    (by rw [db]; decide) (by rw [db]; decide) recorded resolved
  have honest : (graphActivities spoken ⟨⟨0⟩⟩).Along (fun _ event => event.Honest) press foldedRun :=
    ((graphActivities spoken _).along_cons rfl).mpr ⟨trivial, ((graphActivities spoken _).along_cons rfl).mpr
      ⟨trivial, trivial⟩⟩
  exact ⟨_, _, _, rfl, member, by decide, citations_backed spoken_faithful press_pristine honest rfl _ member (by decide)⟩

end Examples

end Coral.Proofs

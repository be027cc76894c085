import Coral.Library.Machine
import Coral.Proofs.AgentPrefixes
import Coral.Proofs.ConflictRecords

/-! The activities of a graph's agents, in any order, over the files and the database that
they share. Each attempt at one may stop between any two of its calls. -/

namespace Coral.Proofs
open Coral.Library Coral.Temporal LawfulStorage

inductive FileActivity where
  | buildSeed (mandate : Mandate)
  | executeTool (registry : Except String ToolRegistry) (allowedTools : List String) (call : ToolCall)
  | persistOutput (body : String) (citations : List String)
  | applyFsOps (mandate : Mandate) (ops : List FsOp)
  | reconcileChildren (sources : List ReconcileSource) (conflict : Option ConflictRecordIntent) (now : DateTime)
  | persistRetirement (reason : String) (retiredAt : DateTime)
  | appendDecisionLog (entry : DecisionLogEntry)
  | registerChild (childAgentName : String) (childTools : List String) (childAgentId : AgentId)

/-- One attempt at an activity, and how many calls of each store it lives to see. -/
structure Scheduled where
  agentId : AgentId
  activity : FileActivity
  clock : Clock
  writes : Nat
  calls : Nat

/-- A child's output as a `reconcile_children` of the parent read it. -/
structure Fold where
  parent : AgentId
  source : ReconcileSource
  body : String
  now : DateTime

def Fold.record (codec : Codec) (fold : Fold) : EvidenceRecord := foldRecord codec fold.source fold.body fold.now

def Fold.relpath (codec : Codec) (fold : Fold) : String := evidenceRelpath (foldSeed fold.source) (fold.record codec).id

def foldsOf (parent : AgentId) (now : DateTime) (outputs : List (ReconcileSource × String)) : List Fold :=
  outputs.map fun (source, body) => ⟨parent, source, body, now⟩

/-- The record is that of a fold, at the fold's own path. -/
def Wrote (codec : Codec) (folds : List Fold) (agentId : AgentId) (rel : String) (record : EvidenceRecord) : Prop :=
  ∃ fold ∈ folds, agentId = fold.parent ∧ rel = fold.relpath codec ∧ record = fold.record codec

inductive Entry where
  | folded (fold : Fold)
  | cited (path : String) (row : Citation)

/-- The log is no part of the system: it says which folds were written and what was cited. -/
structure Workspace (σ : Type) where
  files : σ
  db : StructuralDb
  log : List Entry

section Machine

variable {σ : Type} [AgentStorage σ] [LawfulStorage σ] (codec : Codec) (graphId : GraphId)

def Scheduled.call (event : Scheduled) (body : String) (citations : List String) : PersistCall :=
  ⟨event.agentId, (FsHandle.forAgent graphId event.agentId).storagePrefix, body, citations⟩

def Scheduled.folds (event : Scheduled) (files : Stopping σ) (sources : List ReconcileSource) (now : DateTime) :
    List Fold :=
  foldsOf event.agentId now ((readChildOutputs codec graphId files sources).toOption.getD [])

def citedEntries (call : PersistCall) (files : σ) (db : StructuralDb) : List Entry :=
  call.citations.filterMap fun path =>
    (call.row codec files path).bind fun row => if row ∈ db.citations then some (.cited path row) else none

/-- The folds whose records are in place. -/
def foldedEntries (files : σ) (folds : List Fold) : List Entry :=
  (folds.filter fun fold => viewAt files ((AgentFs.openForAgent graphId fold.parent).key (fold.relpath codec)) =
    some (.evidence (fold.record codec))).map .folded

def Workspace.step (state : Workspace σ) (event : Scheduled) : Workspace σ :=
  let handle := FsHandle.forAgent graphId event.agentId
  let files : Stopping σ := ⟨state.files, event.writes, []⟩
  match event.activity with
  | .buildSeed mandate => { state with files := (buildSeedFs handle mandate event.clock files).2.storage }
  | .executeTool registry allowedTools call =>
    { state with files := (executeTool handle registry allowedTools call event.clock files).2.storage }
  | .persistOutput body citations =>
    let (_, after, db) := persistOutputImpl codec event.clock event.agentId handle.storagePrefix body citations files
      (⟨state.db, event.calls⟩ : FaultyDb)
    ⟨after.storage, db.db, state.log ++ citedEntries codec (event.call graphId body citations) after.storage db.db⟩
  | .applyFsOps mandate ops => { state with files := (applyFsOpsImpl handle mandate ops event.clock files).2.storage }
  | .reconcileChildren sources conflict now =>
    let after := (reconcileChildrenImpl codec ⟨graphId, event.agentId, sources, conflict⟩ now event.clock files).2.storage
    { state with
      files := after, log := state.log ++ foldedEntries codec graphId after (event.folds codec graphId files sources now) }
  | .persistRetirement reason retiredAt =>
    { state with files := (persistRetirement codec handle reason retiredAt files).2.storage }
  | .appendDecisionLog entry => { state with files := (appendDecisionLogImpl codec handle entry files).2.storage }
  | .registerChild childAgentName childTools childAgentId =>
    { state with
      db := (registerChildImpl graphId event.agentId childAgentName childTools childAgentId
        (⟨state.db, event.calls⟩ : FaultyDb)).2.db }

theorem mem_foldedEntries {files : σ} {folds : List Fold} {fold : Fold} :
    Entry.folded fold ∈ foldedEntries codec graphId files folds ↔ fold ∈ folds ∧
      viewAt files ((AgentFs.openForAgent graphId fold.parent).key (fold.relpath codec)) =
        some (.evidence (fold.record codec)) := by
  unfold foldedEntries
  rw [List.mem_map]
  constructor
  · rintro ⟨other, member, same⟩
    cases same
    obtain ⟨among, written⟩ := List.mem_filter.mp member
    exact ⟨among, of_decide_eq_true written⟩
  · intro ⟨among, written⟩
    exact ⟨fold, List.mem_filter.mpr ⟨among, decide_eq_true written⟩, rfl⟩

theorem mem_citedEntries {call : PersistCall} {files : σ} {db : StructuralDb}
    {path : String} {row : Citation} (among : path ∈ call.citations) (named : call.row codec files path = some row)
    (member : row ∈ db.citations) : Entry.cited path row ∈ citedEntries codec call files db := by
  unfold citedEntries
  refine List.mem_filterMap.mpr ⟨path, among, ?_⟩
  rw [named, Option.bind_some, if_pos member]

def graphActivities : Machine (Workspace σ) Scheduled Unit := ⟨fun state event => some (state.step codec graphId event, [])⟩

end Machine

/-- Registering a child touches neither the versions nor the citations. -/
theorem registerChildImpl_keeps {graphId : GraphId} {parent child : AgentId} {name : String} {childTools : List String}
    {before after : FaultyDb} {result : Except DbError RegisterChildOutcome}
    (registered : registerChildImpl graphId parent name childTools child before = (result, after)) :
    after.db.citations = before.db.citations ∧ after.db.fileIndex = before.db.fileIndex := by
  unfold registerChildImpl at registered
  split at registered
  · cases registered
    exact ⟨rfl, rfl⟩
  · cases registered
    exact ⟨rfl, rfl⟩
  · split at registered
    · cases registered
      exact ⟨rfl, rfl⟩
    · rename_i added inserted
      have row := (StructuralDb.addAgent_ok (FaultyDb.whileUp_ok inserted)).2
      split at registered
      · cases registered
        rw [row]
        exact ⟨rfl, rfl⟩
      · rename_i linked edged
        have edge := StructuralDb.addEdge_ok (FaultyDb.whileUp_ok edged)
        cases registered
        rw [edge, row]
        exact ⟨rfl, rfl⟩

section Evidence

variable {σ : Type} [AgentStorage σ] [LawfulStorage σ] {codec : Codec} {graphId : GraphId} {agentId : AgentId}
  {storage after : σ}

/-- What differs of the agents' evidence is a record that was made. -/
def NewEvidence (graphId : GraphId) (made : AgentId → String → EvidenceRecord → Prop) (storage after : σ) : Prop :=
  ∀ other path, citedBytes (.openForAgent graphId other) after path = citedBytes (.openForAgent graphId other) storage path ∨
    ∃ rel record, AgentFs.evidenceRelpathChecked path = .ok rel ∧ made other rel record ∧
      citedBytes (.openForAgent graphId other) after path = some (.evidence record)

theorem SameEvidence.new {made : AgentId → String → EvidenceRecord → Prop} (same : SameEvidence graphId storage after) :
    NewEvidence graphId made storage after := fun other path => .inl (same other path)

theorem sameEvidence_put {rest : String} {value : Content}
    (written : AgentFs.put storage ((AgentFs.openForAgent graphId agentId).key rest) value = .ok after)
    (outside : (keyPath rest).head? ≠ some evidenceName ∨ keyPath rest = [evidenceName, tailName]) :
    SameEvidence graphId storage after := sameEvidence_sets (put_spec written).2 outside

/-- Neither an output nor a record of evidence. -/
def Aside (path : List Name) : Prop :=
  (path.head? ≠ some evidenceName ∨ path = [evidenceName, tailName]) ∧ path ≠ keyPath CANONICAL_OUTPUT

/-- What differs is aside, or a record that was made where there was none. -/
def Adds (graphId : GraphId) (made : AgentId → String → EvidenceRecord → Prop) (storage after : σ) : Prop :=
  ∀ key, viewAt after key = viewAt storage key ∨
    (∃ other rest, Aside (keyPath rest) ∧ (place key : Place σ) = place ((AgentFs.openForAgent graphId other).key rest)) ∨
    ∃ other, ∃ observed : Observed, made other observed.relpath observed.record ∧
      (place key : Place σ) = place ((AgentFs.openForAgent graphId other).key observed.relpath) ∧
      viewAt storage key = none ∧ viewAt after key = some (.evidence observed.record)

section Adds

variable {made wider : AgentId → String → EvidenceRecord → Prop}

theorem Adds.refl (storage : σ) : Adds graphId made storage storage := fun _ => .inl rfl

theorem Adds.trans {middle : σ} (first : Adds graphId made storage middle) (second : Adds graphId made middle after) :
    Adds graphId made storage after := by
  intro key
  rcases second key with same | aside | ⟨other, observed, by_made, there, empty, found⟩
  · rw [same]
    exact first key
  · exact .inr (.inl aside)
  · rcases first key with same | aside | ⟨_, _, _, _, _, earlier⟩
    · rw [same] at empty
      exact .inr (.inr ⟨other, observed, by_made, there, empty, found⟩)
    · exact .inr (.inl aside)
    · rw [empty] at earlier
      cases earlier

theorem Adds.mono (implies : ∀ other rel record, made other rel record → wider other rel record)
    (adds : Adds graphId made storage after) : Adds graphId wider storage after := by
  intro key
  rcases adds key with same | aside | ⟨other, observed, by_made, rest⟩
  · exact .inl same
  · exact .inr (.inl aside)
  · exact .inr (.inr ⟨other, observed, implies _ _ _ by_made, rest⟩)

/-- What a process does shows in the store. -/
theorem Adds.stopping {before final : Stopping σ} (adds : Adds graphId made before final) :
    Adds graphId made before.storage final.storage := adds

/-- Of an agent's evidence no record changes, and one that is new has a name of its own. -/
theorem Adds.cited (adds : Adds graphId made storage after) (other : AgentId) (path : String) :
    citedBytes (.openForAgent graphId other) after path = citedBytes (.openForAgent graphId other) storage path ∨
      ∃ observed : Observed, AgentFs.evidenceRelpathChecked path = .ok observed.relpath ∧
        made other observed.relpath observed.record ∧ citedBytes (.openForAgent graphId other) storage path = none ∧
        citedBytes (.openForAgent graphId other) after path = some (.evidence observed.record) := by
  unfold citedBytes
  split
  · rename_i rel checked
    obtain ⟨below, record, whole⟩ := checked_keyPath checked
    rcases adds ((AgentFs.openForAgent graphId other).key rel) with same | ⟨agent, rest, ⟨outside, -⟩, there⟩ |
      ⟨agent, observed, by_made, there, empty, found⟩
    · exact .inl same
    · obtain ⟨-, path⟩ := keyPath_agent_inj (path_of_place _ _ there)
      rw [path] at below record
      exact (outside.elim (fun apart => apart below) record).elim
    · obtain ⟨rfl, path⟩ := keyPath_agent_inj (path_of_place _ _ there)
      obtain ⟨name, named, -⟩ := relpath_joinPath observed.tool observed.slugSeed observed.args observed.result
        observed.createdAt
      have same : rel = observed.relpath := by
        rw [whole, path, show observed.relpath = joinPath [evidenceName, name] from named, keyPath_joinPath]
      exact .inr ⟨observed, by rw [checked, same], by_made, empty, found⟩
  · exact .inl rfl

theorem Adds.new (adds : Adds graphId made storage after) : NewEvidence graphId made storage after := by
  intro other path
  rcases adds.cited other path with same | ⟨observed, checked, by_made, -, found⟩
  · exact .inl same
  · exact .inr ⟨observed.relpath, observed.record, checked, by_made, found⟩

theorem Adds.output (adds : Adds graphId made storage after) (other : AgentId) :
    viewAt after ((AgentFs.openForAgent graphId other).key CANONICAL_OUTPUT) =
      viewAt storage ((AgentFs.openForAgent graphId other).key CANONICAL_OUTPUT) := by
  rcases adds ((AgentFs.openForAgent graphId other).key CANONICAL_OUTPUT) with same | ⟨agent, rest, ⟨-, aside⟩, there⟩ |
    ⟨agent, observed, -, there, -, -⟩
  · exact same
  · obtain ⟨-, path⟩ := keyPath_agent_inj (path_of_place _ _ there)
    exact (aside path.symm).elim
  · obtain ⟨-, path⟩ := keyPath_agent_inj (path_of_place _ _ there)
    obtain ⟨name, named, -⟩ := relpath_joinPath observed.tool observed.slugSeed observed.args observed.result
      observed.createdAt
    rw [show observed.relpath = joinPath [evidenceName, name] from named, keyPath_joinPath] at path
    have first : (keyPath CANONICAL_OUTPUT).head? = some evidenceName := congrArg List.head? path
    exact absurd first (by decide)

theorem adds_sets {rest : String} {value : Option Content}
    (sets : Sets storage after ((AgentFs.openForAgent graphId agentId).key rest) value) (aside : Aside (keyPath rest)) :
    Adds graphId made storage after := by
  intro key
  by_cases here : (place key : Place σ) = place ((AgentFs.openForAgent graphId agentId).key rest)
  · exact .inr (.inl ⟨agentId, rest, aside, here⟩)
  · left
    unfold viewAt
    rw [sets, if_neg here]

theorem adds_put {rest : String} {value : Content}
    (written : AgentFs.put storage ((AgentFs.openForAgent graphId agentId).key rest) value = .ok after)
    (aside : Aside (keyPath rest)) : Adds graphId made storage after := adds_sets (put_spec written).2 aside

private theorem aside_opened {key : String} (member : key ∈ openedKeys) : Aside (keyPath key) := by
  unfold openedKeys at member
  simp only [List.mem_cons, List.not_mem_nil, or_false] at member
  rcases member with rfl | rfl | rfl
  · exact ⟨.inl (by decide), by decide⟩
  · exact ⟨.inr (by decide), by decide⟩
  · exact ⟨.inl (by decide), by decide⟩

theorem adds_open {mandate : Mandate} {clock : Clock} {result : Except FsError AgentFs}
    (opened : AgentFs.openWithStorage (FsHandle.forAgent graphId agentId).storagePrefix mandate clock storage =
      (result, after)) :
    Adds graphId made storage after ∧ ∀ fs, result = .ok fs → fs = .openForAgent graphId agentId := by
  rw [← attach_forAgent]
  apply openWithStorage_keeps opened (.refl storage)
  intro before middle key value member adds written
  rw [attach_forAgent] at written
  exact adds.trans (adds_put written (aside_opened member))

theorem adds_applyOps (clock : Clock) (ops : List FsOp) :
    Adds graphId made storage ((AgentFs.openForAgent graphId agentId).applyOps clock ops storage).2 := by
  intro key
  by_cases changed : viewAt ((AgentFs.openForAgent graphId agentId).applyOps clock ops storage).2 key = viewAt storage key
  · exact .inl changed
  · right; left
    rcases applyOps_frame clock ops changed with sidecar | ⟨-, op, -, noted, accepted, there⟩
    · exact ⟨agentId, NOTES_TAIL_SUFFIX, ⟨.inl (by decide), by decide⟩, sidecar⟩
    · obtain ⟨note, -, rfl⟩ := accepted_iff.mp accepted
      have below : keyPath (notesName.text ++ "/" ++ joinPath note) = notesName :: note := by
        rw [keyPath_dir, keyPath_joinPath]
      refine ⟨agentId, notesName.text ++ "/" ++ joinPath note, ?_, there⟩
      rw [below]
      refine ⟨.inl (by simp [notesName, evidenceName]), ?_⟩
      rw [show keyPath CANONICAL_OUTPUT = [⟨"outputs", by decide⟩, ⟨"output.md", by decide⟩] by decide]
      simp [notesName]

/-- A record is written to its own path if nothing is there, and its name to the sidecar. -/
theorem adds_record {clock : DateTime} {tool slugSeed : String} {args result : Json} {now : DateTime}
    {ended : Except FsError String}
    (recorded : (AgentFs.openForAgent graphId agentId).recordEvidence clock (.new tool args result now) slugSeed storage =
      (ended, after)) :
    Adds graphId (fun other rel record => other = agentId ∧
      rel = evidenceRelpath slugSeed (EvidenceRecord.new tool args result now).id ∧ record = .new tool args result now)
      storage after := by
  have tail : ∀ {middle : σ} {value : Content}, AgentStorage.put middle
      ((AgentFs.openForAgent graphId agentId).key EVIDENCE_TAIL_SUFFIX) value = .ok after → ∀ made,
      Adds graphId made middle after := fun put _ =>
    adds_sets (put_ok _ _ _ _ put).2 ⟨.inr (by decide), by decide⟩
  rcases recordEvidence_cases recorded with ⟨-, -, rfl⟩ | ⟨-, existed⟩ | ⟨middle, created, ended⟩
  · exact .refl after
  · intro key
    left
    unfold viewAt
    rw [putIfAbsent_existed storage after _ _ existed]
  · obtain ⟨empty, -, sets⟩ := putIfAbsent_created storage middle _ _ created
    have first : Adds graphId (fun other rel record => other = agentId ∧
        rel = evidenceRelpath slugSeed (EvidenceRecord.new tool args result now).id ∧ record = .new tool args result now)
        storage middle := by
      intro key
      by_cases here : (place key : Place σ) = place ((AgentFs.openForAgent graphId agentId).key
          (evidenceRelpath slugSeed (EvidenceRecord.new tool args result now).id))
      · refine .inr (.inr ⟨agentId, ⟨tool, args, result, now, slugSeed, clock⟩, ⟨rfl, rfl, rfl⟩, here, ?_, ?_⟩)
        · unfold viewAt
          rw [here]
          exact empty
        · unfold viewAt
          rw [sets, if_pos here]
          rfl
      · left
        unfold viewAt
        rw [sets, if_neg here]
    rcases ended with ⟨-, -, rfl⟩ | ⟨-, followed⟩
    · exact first
    · obtain ⟨value, put⟩ := appendToTail_put followed
      exact first.trans (tail put _)

end Adds

private theorem outside_written {key : String} (member : key ∈ CANONICAL_OUTPUT :: openedKeys) :
    (keyPath key).head? ≠ some evidenceName ∨ keyPath key = [evidenceName, tailName] := by
  rcases List.mem_cons.mp member with rfl | opened
  · exact .inl (by decide)
  · exact (aside_opened opened).1

theorem sameEvidence_open {mandate : Mandate} {clock : Clock} {result : Except FsError AgentFs}
    (opened : AgentFs.openWithStorage (FsHandle.forAgent graphId agentId).storagePrefix mandate clock storage =
      (result, after)) : SameEvidence graphId storage after := by
  intro other path
  rcases (@adds_open σ _ _ graphId agentId storage after (fun _ _ _ => False) _ _ _ opened).1.new other path with
    same | ⟨_, _, _, never, _⟩
  · exact same
  · exact never.elim

theorem sameEvidence_persistOutput {δ : Type} [StructuralDbStore δ] {clock : Clock} {body : String}
    {citations : List String} {before final : δ} {result : Except PersistError OutputId}
    (ran : persistOutputImpl codec clock agentId (FsHandle.forAgent graphId agentId).storagePrefix body citations storage
      before = (result, after, final)) : SameEvidence graphId storage after := by
  apply persistOutputImpl_keeps ran (.refl storage)
  intro before middle key value member same written
  rw [attach_forAgent] at written
  exact same.trans (sameEvidence_put written (outside_written member))

omit [LawfulStorage σ] [AgentStorage σ] in
theorem dispatchTool_ok {registry : Except String ToolRegistry} {allowedTools : List String} {call : ToolCall}
    {now : DateTime} {record : EvidenceRecord} (dispatched : dispatchTool registry allowedTools call now = .ok record) :
    ∃ answer, record = .new call.name call.args answer now := by
  unfold dispatchTool at dispatched
  split at dispatched
  · cases dispatched
  · rename_i registry
    split at dispatched
    · cases dispatched
    · cases called : registry.call call.name call.args now with
      | error error =>
        rw [called] at dispatched
        cases dispatched
      | ok made =>
        rw [called] at dispatched
        cases dispatched
        unfold ToolRegistry.call at called
        split at called
        · cases called
        · obtain ⟨answer, -, built⟩ := bind_ok called
          cases built
          exact ⟨answer, rfl⟩

theorem adds_executeTool {registry : Except String ToolRegistry} {allowedTools : List String} {call : ToolCall}
    {clock : Clock} {result : Except String ToolCallOutcome}
    (executed : executeTool (.forAgent graphId agentId) registry allowedTools call clock storage = (result, after)) :
    Adds graphId (fun _ _ record => dispatchTool registry allowedTools call (clock 0) = .ok record) storage after := by
  unfold executeTool at executed
  split at executed
  · cases executed
    exact Adds.refl _
  · rename_i record dispatched
    obtain ⟨answer, rfl⟩ := dispatchTool_ok dispatched
    generalize opening : AgentFs.openWithStorage (FsHandle.forAgent graphId agentId).storagePrefix placeholderMandate
      (fun reading => clock (reading + 1)) storage = ended at executed
    obtain ⟨outcome, opened⟩ := ended
    obtain ⟨adds, agent⟩ := adds_open opening
    cases outcome with
    | error error =>
      cases executed
      exact adds
    | ok fs =>
      obtain rfl := agent fs rfl
      simp only at executed
      split at executed
      · rename_i recorded
        cases executed
        exact adds.trans ((adds_record recorded).mono fun _ _ _ made => by rw [made.2.2, dispatched])
      · rename_i recorded
        cases executed
        exact adds.trans ((adds_record recorded).mono fun _ _ _ made => by rw [made.2.2, dispatched])

theorem adds_writeFolds {now : DateTime} {clock : Clock} {reading : Nat} {outputs : List (ReconcileSource × String)}
    {result : Except ReconcileError (List String)}
    (ran : writeFolds codec (.openForAgent graphId agentId) now clock reading outputs storage = (result, after)) :
    Adds graphId (Wrote codec (foldsOf agentId now outputs)) storage after := by
  induction outputs generalizing storage after reading result with
  | nil =>
    cases ran
    exact Adds.refl _
  | cons output outputs ih =>
    obtain ⟨source, body⟩ := output
    have made : ∀ {middle : σ} {ended : Except FsError String},
        (AgentFs.openForAgent graphId agentId).recordEvidence (clock reading) (foldRecord codec source body now)
          (foldSeed source) storage = (ended, middle) →
        Adds graphId (Wrote codec (foldsOf agentId now ((source, body) :: outputs))) storage middle := by
      intro middle ended recorded
      exact (adds_record recorded).mono fun other rel record same => ⟨_, List.mem_cons_self, same⟩
    have later : ∀ {middle final : σ} {ended : Except ReconcileError (List String)},
        writeFolds codec (.openForAgent graphId agentId) now clock (reading + 1) outputs middle = (ended, final) →
        Adds graphId (Wrote codec (foldsOf agentId now ((source, body) :: outputs))) middle final := by
      intro middle final ended rest
      refine (ih rest).mono fun other rel record same => ?_
      obtain ⟨fold, member, there⟩ := same
      exact ⟨fold, List.mem_cons_of_mem _ member, there⟩
    unfold writeFolds at ran
    split at ran
    · rename_i recorded
      cases ran
      exact made recorded
    · rename_i path middle recorded
      split at ran
      · rename_i rest
        cases ran
        exact (made recorded).trans (later rest)
      · rename_i rest
        cases ran
        exact (made recorded).trans (later rest)

theorem aside_below {directory : Name} (other : directory ≠ evidenceName ∧ directory.text ≠ "outputs") (rest : String) :
    Aside (keyPath (directory.text ++ "/" ++ rest)) := by
  rw [keyPath_dir]
  refine ⟨.inl (by simpa using other.1), ?_⟩
  rw [show keyPath CANONICAL_OUTPUT = [⟨"outputs", by decide⟩, ⟨"output.md", by decide⟩] by decide]
  intro same
  exact other.2 (congrArg Name.text (List.cons.inj same).1)

theorem adds_writeConflict {made : AgentId → String → EvidenceRecord → Prop} {now : DateTime}
    {conflict : Option ConflictRecordIntent} {result : Except ReconcileError (Option ConflictId)}
    (ran : writeConflict codec (.openForAgent graphId agentId) now conflict storage = (result, after)) :
    Adds graphId made storage after := by
  rcases reconcileConflict_cases ran with rfl | ⟨intent, -, rfl⟩
  · exact .refl after
  · generalize written : (AgentFs.openForAgent graphId agentId).writeConflict codec.rfc3339 (.new now intent) storage = ended
    obtain ⟨result, final⟩ := ended
    rcases writeConflict_cases written with rfl | ⟨-, outcome, wrote⟩
    · exact .refl final
    · cases outcome with
      | existed =>
        intro key
        left
        unfold viewAt
        rw [putIfAbsent_existed storage final _ _ wrote]
      | created =>
        refine adds_sets (putIfAbsent_created storage final _ _ wrote).2.2 ?_
        rw [show "conflicts/" = conflictsName.text ++ "/" from rfl, String.append_assoc]
        exact aside_below (by decide) _

theorem adds_reconcile {sources : List ReconcileSource} {conflict : Option ConflictRecordIntent} {now : DateTime}
    {clock : Clock} {result : Except ReconcileError ReconcileChildrenOutput}
    (ran : reconcileChildrenImpl codec ⟨graphId, agentId, sources, conflict⟩ now clock storage = (result, after)) :
    Adds graphId (Wrote codec (foldsOf agentId now
      ((readChildOutputs codec graphId storage sources).toOption.getD []))) storage after := by
  unfold reconcileChildrenImpl at ran
  simp only at ran
  split at ran
  · cases ran
    exact Adds.refl _
  · rename_i outputs read
    rw [read]
    split at ran
    · rename_i folded
      cases ran
      exact adds_writeFolds folded
    · rename_i folded
      have first := adds_writeFolds folded
      split at ran
      · rename_i conflicting
        cases ran
        exact first.trans (adds_writeConflict conflicting)
      · rename_i conflicting
        cases ran
        exact first.trans (adds_writeConflict conflicting)

private theorem adds_settle {made : AgentId → String → EvidenceRecord → Prop} {rest : String} {value : Content}
    (aside : Aside (keyPath rest)) :
    Adds graphId made storage (AgentFs.settle storage
      (AgentFs.put storage ((AgentFs.openForAgent graphId agentId).key rest) value)).2 := by
  cases written : AgentFs.put storage ((AgentFs.openForAgent graphId agentId).key rest) value with
  | error error => exact .refl storage
  | ok final => exact adds_put written aside

def decisionsName : Name := ⟨"decisions", by decide⟩

/-- The evidence that an activity may leave. -/
def Scheduled.Makes (codec : Codec) (graphId : GraphId) (event : Scheduled) (files : Stopping σ) :
    AgentId → String → EvidenceRecord → Prop :=
  match event.activity with
  | .executeTool registry allowedTools call => fun _ _ record =>
    dispatchTool registry allowedTools call (event.clock 0) = .ok record
  | .reconcileChildren sources _ now => Wrote codec (event.folds codec graphId files sources now)
  | _ => fun _ _ _ => False

/-- An activity that persists no output leaves every output as it is, and adds what it makes. -/
theorem adds_step (state : Workspace σ) (event : Scheduled)
    (other : ∀ body citations, event.activity ≠ .persistOutput body citations) :
    Adds graphId (event.Makes codec graphId (⟨state.files, event.writes, []⟩ : Stopping σ)) state.files
      (state.step codec graphId event).files := by
  obtain ⟨agentId, activity, clock, writes, calls⟩ := event
  have inner : ∀ {made : AgentId → String → EvidenceRecord → Prop} {after : Stopping σ},
      Adds graphId made (⟨state.files, writes, []⟩ : Stopping σ) after →
      Adds graphId made state.files after.storage := Adds.stopping
  cases activity with
  | buildSeed mandate =>
    apply inner
    unfold buildSeedFs
    split
    · rename_i opening
      exact (adds_open opening).1
    · rename_i opening
      exact (adds_open opening).1
  | executeTool registry allowedTools call => exact inner (adds_executeTool rfl)
  | persistOutput body citations => exact (other body citations rfl).elim
  | applyFsOps mandate ops =>
    apply inner
    unfold applyFsOpsImpl
    split
    · rename_i opening
      exact (adds_open opening).1
    · rename_i fs opened opening
      obtain ⟨adds, agent⟩ := @adds_open _ _ _ _ _ _ _ (fun _ _ _ => False) _ _ _ opening
      obtain rfl := agent fs rfl
      have rewritten : (rewriteFs (AgentFs.openForAgent graphId agentId) (fun reading => clock (reading + 2)) ops
          opened).2 = ((AgentFs.openForAgent graphId agentId).applyOps (fun reading => clock (reading + 2)) ops opened).2 := by
        unfold rewriteFs
        split <;> rename_i applied <;> rw [applied]
      have notes : Adds graphId (fun _ _ _ => False) opened ((AgentFs.openForAgent graphId agentId).applyOps
          (fun reading => clock (reading + 2)) ops opened).2 := adds_applyOps _ ops
      rw [← rewritten] at notes
      split <;> rename_i outcome <;> rw [outcome] at notes <;> exact adds.trans notes
  | reconcileChildren sources conflict now => exact inner (adds_reconcile rfl)
  | persistRetirement reason retiredAt =>
    apply inner
    unfold persistRetirement
    rw [attach_forAgent]
    exact adds_settle ⟨.inl (by decide), by decide⟩
  | appendDecisionLog entry =>
    apply inner
    unfold appendDecisionLogImpl
    rw [attach_forAgent]
    apply adds_settle
    rw [show "decisions/" = decisionsName.text ++ "/" from rfl, String.append_assoc, String.append_assoc,
      String.append_assoc]
    exact aside_below (by decide) _
  | registerChild childAgentName childTools childAgentId => exact .refl state.files

theorem newEvidence_step (state : Workspace σ) (event : Scheduled) :
    NewEvidence graphId (event.Makes codec graphId (⟨state.files, event.writes, []⟩ : Stopping σ)) state.files
      (state.step codec graphId event).files := by
  obtain ⟨agentId, activity, clock, writes, calls⟩ := event
  have inner : ∀ {after : Stopping σ}, SameEvidence graphId (⟨state.files, writes, []⟩ : Stopping σ) after →
      SameEvidence graphId state.files after.storage := fun same => same
  by_cases persists : ∃ body citations, activity = .persistOutput body citations
  · obtain ⟨body, citations, rfl⟩ := persists
    exact (inner (sameEvidence_persistOutput rfl)).new
  · exact (adds_step state _ fun body citations same => persists ⟨body, citations, same⟩).new

end Evidence

end Coral.Proofs

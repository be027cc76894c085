import Coral.Proofs.AgentKeyspace
import Coral.Proofs.CitationForgery
import Coral.Proofs.ReconcileAtomicity

/-! What the provenance gate lets through and what can be pinned. The gate looks only for a
file, and the pin reads a child and a version off every record that goes by `reconcile`. -/

namespace Coral.Proofs
open Coral.Library Coral.Temporal LawfulStorage

/-- The arguments name a child that has a row, and a version of its output. -/
def PinnableArgs (codec : Codec) (agents : List AgentId) (args : Json) : Prop :=
  ∃ value child sha, args.get? "child_agent_id" = some value ∧ codec.fromValue value = some child ∧
    (args.get? "child_output_blob_sha").bind Json.asStr = some sha ∧ child ∈ agents

/-- A step that leaves only records that can be pinned: where a tool called `reconcile`
answers its arguments are those of a fold, and a child that is folded has its row. -/
def Scheduled.Pinnable {σ : Type} [AgentStorage σ] (codec : Codec) (graphId : GraphId) (state : Workspace σ)
    (event : Scheduled) : Prop :=
  match event.activity with
  | .executeTool registry allowedTools call =>
    call.name = "reconcile" → (dispatchTool registry allowedTools call (event.clock 0)).toOption ≠ none →
      PinnableArgs codec state.db.agents call.args
  | .reconcileChildren sources _ _ => ∀ source ∈ sources, ∀ body,
    readChildOutput codec graphId source state.files = .ok body → source.childRef.agentId ∈ state.db.agents
  | _ => True

section Rows

variable {codec : Codec} {graphId : GraphId} {agentId : AgentId} {before after : FaultyDb}

theorem whileUp_agents {store next : FaultyDb} {call : Except DbError StructuralDb}
    (same : ∀ db, call = .ok db → db.agents = store.db.agents) (ended : store.whileUp call = .ok next) :
    next.db.agents = store.db.agents := same next.db (FaultyDb.whileUp_ok ended)

theorem persistOutputImpl_agents {σ : Type} [AgentStorage σ] {clock : Clock} {raw body : String}
    {citations : List String} {storage final : σ} {result : Except PersistError OutputId}
    (ran : persistOutputImpl codec clock agentId raw body citations storage before = (result, final, after)) :
    after.db.agents = before.db.agents := by
  refine @persistOutputImpl_db σ _ FaultyDb _ (fun current => current.db.agents = before.db.agents) _ _ _ _ _ _ _ _ _ _ _
    ran rfl ?_ ?_
  · intro store next _ _ _ held indexed
    rw [← held]
    refine whileUp_agents (fun db written => ?_) indexed
    rw [StructuralDb.setFileVersion_ok written]
    rfl
  · intro store next row held cited
    rw [← held]
    exact whileUp_agents (fun db written => (StructuralDb.addCitation_ok written).1) cited

theorem registerChildImpl_agents {parent child : AgentId} {name : String} {childTools : List String}
    {result : Except DbError RegisterChildOutcome}
    (registered : registerChildImpl graphId parent name childTools child before = (result, after)) :
    before.db.agents ⊆ after.db.agents := by
  unfold registerChildImpl at registered
  split at registered
  · cases registered
    exact List.Subset.refl _
  · cases registered
    exact List.Subset.refl _
  · split at registered
    · cases registered
      exact List.Subset.refl _
    · rename_i added inserted
      have row := (StructuralDb.addAgent_ok (FaultyDb.whileUp_ok inserted)).2
      have first : before.db.agents ⊆ added.db.agents := by
        rw [row]
        exact List.map_subset _ (List.subset_append_left _ _)
      split at registered
      · cases registered
        exact first
      · rename_i linked edged
        cases registered
        rw [StructuralDb.addEdge_ok (FaultyDb.whileUp_ok edged)]
        exact first

variable {σ : Type} [AgentStorage σ] [LawfulStorage σ]

/-- No agent loses its row. -/
theorem step_agents (state : Workspace σ) (event : Scheduled) :
    state.db.agents ⊆ (state.step codec graphId event).db.agents := by
  obtain ⟨agentId, activity, clock, writes, calls⟩ := event
  cases activity with
  | persistOutput body citations =>
    have same := @persistOutputImpl_agents codec agentId (⟨state.db, calls⟩ : FaultyDb) _ (Stopping σ) _ clock
      (FsHandle.forAgent graphId agentId).storagePrefix body citations ⟨state.files, writes, []⟩ _ _ rfl
    intro id member
    exact same ▸ member
  | registerChild childAgentName childTools childAgentId =>
    exact @registerChildImpl_agents graphId (⟨state.db, calls⟩ : FaultyDb) _ agentId childAgentId childAgentName childTools _
      rfl
  | _ => exact List.Subset.refl _

end Rows

section Run

variable {σ : Type} [AgentStorage σ] [LawfulStorage σ] {codec : Codec} {graphId : GraphId}

/-- The ids of these agents are read back as they were written. -/
def Reads (codec : Codec) (agents : List AgentId) : Prop := ∀ id ∈ agents, codec.fromValue id.toJson = some id

/-- Every piece of evidence is a record, and can be pinned. -/
def Pinnable (codec : Codec) (graphId : GraphId) (state : Workspace σ) : Prop :=
  ∀ agentId path bytes, citedBytes (.openForAgent graphId agentId) state.files path = some bytes →
    ∃ record, bytes = .evidence record ∧
      (record.tool = "reconcile" → PinnableArgs codec state.db.agents record.args)

omit [AgentStorage σ] [LawfulStorage σ] in
theorem PinnableArgs.mono {agents more : List AgentId} {args : Json} (pinnable : PinnableArgs codec agents args)
    (grown : agents ⊆ more) : PinnableArgs codec more args := by
  obtain ⟨value, child, sha, named, read, pinned, known⟩ := pinnable
  exact ⟨value, child, sha, named, read, pinned, grown known⟩

omit [AgentStorage σ] [LawfulStorage σ] in
theorem fold_pinnable {agents : List AgentId} (reads : Reads codec agents) {fold : Fold}
    (known : fold.source.childRef.agentId ∈ agents) : PinnableArgs codec agents (fold.record codec).args :=
  ⟨fold.source.childRef.agentId.toJson, fold.source.childRef.agentId, (codec.ofBytes (.text fold.body)).hex,
    by simp [Fold.record, foldRecord, EvidenceRecord.new, Json.get?], reads _ known,
    by simp [Fold.record, foldRecord, EvidenceRecord.new, Json.get?, Json.asStr], known⟩

omit [LawfulStorage σ] in
theorem made_pinnable {state : Workspace σ} {event : Scheduled} (pinnable : event.Pinnable codec graphId state)
    (reads : Reads codec state.db.agents) {agentId : AgentId} {rel : String} {record : EvidenceRecord}
    (made : event.Makes codec graphId (⟨state.files, event.writes, []⟩ : Stopping σ) agentId rel record)
    (tool : record.tool = "reconcile") : PinnableArgs codec state.db.agents record.args := by
  obtain ⟨eventAgent, activity, clock, writes, calls⟩ := event
  cases activity with
  | executeTool registry allowedTools call =>
    change dispatchTool registry allowedTools call (clock 0) = .ok record at made
    obtain ⟨answer, rfl⟩ := dispatchTool_ok made
    exact pinnable tool (by rw [made]; nofun)
  | reconcileChildren sources conflict now =>
    obtain ⟨fold, among, -, -, rfl⟩ := made
    apply fold_pinnable reads
    unfold Scheduled.folds foldsOf at among
    obtain ⟨⟨source, body⟩, member, rfl⟩ := List.mem_map.mp among
    cases read : readChildOutputs codec graphId (⟨state.files, writes, []⟩ : Stopping σ) sources with
    | error error =>
      rw [read] at member
      cases member
    | ok outputs =>
      rw [read] at member
      obtain ⟨source_in, here⟩ := (readChildOutputs_ok read source body).mp member
      exact pinnable source source_in body here
  | _ => exact made.elim

theorem Pinnable.step {state : Workspace σ} {event : Scheduled} (pinnable : Pinnable codec graphId state)
    (reads : Reads codec state.db.agents) (leaves : event.Pinnable codec graphId state) :
    Pinnable codec graphId (state.step codec graphId event) := by
  have grown : state.db.agents ⊆ (state.step codec graphId event).db.agents := step_agents state event
  intro agentId path bytes found
  rcases newEvidence_step state event agentId path with same | ⟨rel, record, -, made, written⟩
  · rw [same] at found
    obtain ⟨record, whole, pins⟩ := pinnable agentId path bytes found
    exact ⟨record, whole, fun tool => (pins tool).mono grown⟩
  · rw [written] at found
    exact ⟨record, (Option.some.inj found).symm, fun tool => (made_pinnable leaves reads made tool).mono grown⟩

/-- Evidence is at no other paths than those of records. -/
def Catalogued (graphId : GraphId) (storage : σ) : Prop :=
  ∀ agentId path bytes, citedBytes (.openForAgent graphId agentId) storage path = some bytes →
    ∃ observed : Observed, AgentFs.evidenceRelpathChecked path = .ok observed.relpath

theorem Catalogued.step {state : Workspace σ} (catalogued : Catalogued graphId state.files) (event : Scheduled) :
    Catalogued graphId (state.step codec graphId event).files := by
  intro agentId path bytes found
  obtain ⟨eventAgent, activity, clock, writes, calls⟩ := event
  by_cases persists : ∃ body citations, activity = .persistOutput body citations
  · obtain ⟨body, citations, rfl⟩ := persists
    have same : SameEvidence graphId (⟨state.files, writes, []⟩ : Stopping σ)
        (persistOutputImpl codec clock eventAgent (FsHandle.forAgent graphId eventAgent).storagePrefix body citations
          (⟨state.files, writes, []⟩ : Stopping σ) (⟨state.db, calls⟩ : FaultyDb)).2.1 := sameEvidence_persistOutput rfl
    exact catalogued agentId path bytes ((same agentId path).symm.trans found)
  · have adds := @adds_step σ _ _ codec graphId state ⟨eventAgent, activity, clock, writes, calls⟩
      fun body citations same => persists ⟨body, citations, same⟩
    rcases adds.cited agentId path with same | ⟨observed, checked, -⟩
    · exact catalogued agentId path bytes (same.symm.trans found)
    · exact ⟨observed, checked⟩

/-- The store answers at every record that is there. -/
theorem Catalogued.finds {storage : σ} (catalogued : Catalogued graphId storage) {footing : Footing σ} {agentId : AgentId}
    (housed : footing.Houses (.openForAgent graphId agentId)) {citations : List String}
    (present : ∀ path ∈ citations, (citedBytes (.openForAgent graphId agentId) storage path).isSome = true) :
    footing.Finds (.openForAgent graphId agentId) citations := by
  intro path member rel checked
  obtain ⟨bytes, found⟩ := Option.isSome_iff_exists.mp (present path member)
  obtain ⟨observed, same⟩ := catalogued agentId path bytes found
  obtain rfl : rel = observed.relpath := Except.ok.inj (checked.symm.trans same)
  exact housed.recorded observed

theorem pinnable_pins (faithful : Faithful codec) {state : Workspace σ} (pinnable : Pinnable codec graphId state)
    {agentId : AgentId} (known : agentId ∈ state.db.agents) {path : String}
    (present : (citedBytes (.openForAgent graphId agentId) state.files path).isSome = true) :
    Pins codec (fun other => other ∈ state.db.agents) (.openForAgent graphId agentId) agentId state.files path := by
  obtain ⟨bytes, found⟩ := Option.isSome_iff_exists.mp present
  obtain ⟨record, rfl, pins⟩ := pinnable agentId path bytes found
  by_cases tool : record.tool = "reconcile"
  · obtain ⟨value, child, sha, named, read, pinned, row⟩ := pins tool
    refine ⟨_, child, CANONICAL_OUTPUT, ⟨sha⟩, found, ?_, row⟩
    unfold resolveRecord
    simp only [faithful.fromSlice, if_pos tool, named, read, pinned]
  · refine ⟨_, agentId, path, codec.ofBytes (.evidence record), found, ?_, known⟩
    unfold resolveRecord
    simp only [faithful.fromSlice, if_neg tool]

/-- As long as every record that goes by `reconcile` has the arguments of a fold, an output
that passes the gate is persisted, and each of its citations is resolved: on a store that answers
at the agent's own files while the output is written. -/
theorem accepted_output_persisted (faithful : Faithful codec) {start final : Workspace σ}
    {events : List Scheduled} {outputs : List Unit} (pristine : Pristine graphId start)
    (pinnable : (graphActivities codec graphId).Along (fun state event => event.Pinnable codec graphId state) start events)
    (ran : (graphActivities codec graphId).run start events = some (final, outputs))
    (reads : Reads codec final.db.agents) {agentId : AgentId} (known : agentId ∈ final.db.agents) {footing : Footing σ}
    (housed : footing.Houses (.openForAgent graphId agentId)) (alive : footing.lasts final.files 4)
    {body : String} {citations : List String} {written : σ}
    (accepted : (AgentFs.openForAgent graphId agentId).persistOutput body citations final.files = .ok written)
    (clock : Clock) :
    (∀ path ∈ citations, ∃ cited,
        resolveCited codec (.openForAgent graphId agentId) agentId written path = .ok cited) ∧
      ∃ after db, persistOutputImpl codec clock agentId (FsHandle.forAgent graphId agentId).storagePrefix body citations
        final.files final.db = (.ok (.new body), after, db) := by
  have whole : Reads codec final.db.agents → Pinnable codec graphId final := by
    refine (graphActivities codec graphId).run_invariant_along
      (fun state => Reads codec state.db.agents → Pinnable codec graphId state) ?_ ?_ pinnable ran
    · intro _ agentId path bytes found
      rw [pristine.evidence] at found
      cases found
    · intro state event next more held leaves stepped reads
      cases stepped
      have earlier : Reads codec state.db.agents := fun id member => reads id (step_agents state event member)
      exact (held earlier).step earlier leaves
  have catalogued : Catalogued graphId final.files := by
    refine (graphActivities codec graphId).run_invariant (fun state => Catalogued graphId state.files) ?_ ?_ ran
    · intro agentId path bytes found
      rw [pristine.evidence] at found
      cases found
    · intro state event next more held stepped
      cases stepped
      exact held.step event
  obtain ⟨present, put⟩ := persistOutput_ok through_id accepted
  have finds := catalogued.finds housed present
  have pins := fun path member => pinnable_pins faithful (whole reads) known (present path member)
  constructor
  · intro path member
    obtain ⟨bytes, citedAgent, citedPath, citedSha, found, resolved, -⟩ := pins path member
    obtain ⟨after, again, left⟩ := @Footing.puts σ _ footing final.files 3 _ alive
      (housed.written CANONICAL_OUTPUT List.mem_cons_self) (.text body)
    obtain rfl : after = written := Except.ok.inj (again.symm.trans put)
    refine ⟨(citedAgent, citedPath, citedSha), ?_⟩
    rw [← resolved]
    apply Footing.resolveCited left fun rel checked => finds path member rel checked
    rw [citedBytes_put (attached_openForAgent graphId agentId) List.mem_cons_self put]
    exact found
  · have cites : citations ≠ [] := by
      rintro rfl
      cases accepted
    rw [← attach_forAgent] at housed finds
    obtain ⟨after, db, persisted, -⟩ := @Footing.persists σ StructuralDb _ _ _ _ footing codec final.files final.db 0 clock
      agentId (FsHandle.forAgent graphId agentId).storagePrefix body citations cites housed finds alive trivial known
      (by rw [attach_forAgent]; exact pins)
    exact ⟨after, db, persisted⟩

end Run

section Unpinned

variable {σ δ : Type} [AgentStorage σ] [LawfulStorage σ] [StructuralDbStore δ] [LastingDb δ] {footing : Footing σ}
  {codec : Codec} {storage : σ} {db : δ} {writes calls : Nat}

theorem lasting_persistOutput {fs : AgentFs} (body : String) {citations : List String} (cites : citations ≠ [])
    (housed : footing.Houses fs) (finds : footing.Finds fs citations) (alive : footing.lasts storage (writes + 1))
    (there : ∀ path ∈ citations, (citedBytes fs storage path).isSome = true) :
    ∃ written, fs.persistOutput body citations storage = .ok written ∧ footing.lasts written writes ∧
      AgentFs.put storage (fs.key CANONICAL_OUTPUT) (.text body) = .ok written := by
  obtain ⟨written, put, left⟩ := Footing.puts alive (housed.written CANONICAL_OUTPUT List.mem_cons_self) (.text body)
  refine ⟨written, ?_, left, put⟩
  have nonempty : citations.isEmpty = false := by
    cases citations with
    | nil => exact (cites rfl).elim
    | cons path citations => rfl
  unfold AgentFs.persistOutput
  simp only [nonempty, Bool.false_eq_true, if_false, bind, Except.bind]
  rw [Footing.citationsExist alive finds there]
  exact put

/-- A citation that is not resolved fails the call once the output is in place, and is
there to fail the next one. -/
theorem lasting_unpinned (clock : Clock) {agentId : AgentId} {raw : String} (body : String) {path : String}
    {bytes : Content} {error : PersistError} (housed : footing.Houses (.attach raw))
    (finds : footing.Finds (.attach raw) [path]) (alive : footing.lasts storage (writes + 4))
    (up : LastingDb.lasts db (calls + 1)) (known : LastingDb.knows db agentId)
    (found : citedBytes (.attach raw) storage path = some bytes)
    (refused : resolveRecord codec agentId path bytes = .error error) :
    ∃ after final, persistOutputImpl codec clock agentId raw body [path] storage db = (.error error, after, final) ∧
      viewAt after ((AgentFs.attach raw).key CANONICAL_OUTPUT) = some (.text body) ∧
      citedBytes (.attach raw) after path = some bytes := by
  obtain ⟨opened, opening, room⟩ := Footing.opens (.new "" ⟨0⟩ none) clock housed
    (show footing.lasts storage (writes + 1 + 3) from alive)
  have same : ∀ path, citedBytes (.attach raw) opened path = citedBytes (.attach raw) storage path :=
    (@openWithStorage_keeps σ _
      (fun current => ∀ path, citedBytes (.attach raw) current path = citedBytes (.attach raw) storage path) _ _ _ _ _ _
      opening (fun _ => rfl) fun before after key value member held written path =>
        (citedBytes_put (attached_attach raw) (List.mem_cons_of_mem _ member) written path).trans (held path)).1
  obtain ⟨written, persisted, left, put⟩ := @lasting_persistOutput σ _ _ footing opened writes (.attach raw) body [path]
    (List.cons_ne_nil _ _) housed finds room fun other member => by
      obtain rfl := List.mem_singleton.mp member
      rw [same, found]
      rfl
  have later : citedBytes (.attach raw) written path = some bytes := by
    rw [citedBytes_put (attached_attach raw) List.mem_cons_self put, same, found]
  obtain ⟨indexed, moved, -⟩ := LastingDb.setFileVersion up known CANONICAL_OUTPUT (codec.ofBytes (.text body))
  refine ⟨written, indexed, ?_, (put_spec put).2.at_key, later⟩
  unfold persistOutputImpl addCitations
  rw [opening]
  simp only
  rw [persisted]
  simp only
  rw [moved]
  simp only
  rw [Footing.resolveCited left (finds path List.mem_cons_self) later, refused]

end Unpinned

section Examples

private def scribe : AgentId := ⟨⟨1⟩⟩

private def scrivener : Codec := listedCodec [] [scribe]

private theorem scrivener_faithful : Faithful scrivener where
  fromSlice _ := rfl
  fromValue id other read := by
    have found : [scribe].find? (fun agent => decide (agent.toJson = id.toJson)) = some other := read
    have same : other.toJson = id.toJson := by simpa using List.find?_some found
    obtain ⟨uuid⟩ := id
    obtain ⟨others⟩ := other
    exact congrArg AgentId.mk (hyphenated_injective (Json.string.inj same))

private def staff : StructuralDb := ⟨[⟨⟨⟨0⟩⟩, "desk", .null⟩], [⟨scribe, ⟨⟨0⟩⟩, "scribe"⟩], [], [], ∅, []⟩

private def desk : Workspace LocalStorage := ⟨⟨.empty⟩, staff, []⟩

private theorem desk_pristine : Pristine ⟨⟨0⟩⟩ desk where
  evidence agentId path := by
    unfold citedBytes
    split
    · exact viewAt_empty _
    · rfl
  citations := rfl

private def served (name : String) : Except String ToolRegistry :=
  ToolRegistry.new.ofServers [(["web"], [(name, fun _ => .ok .null)])]

private def bare (name : String) : ToolCall := ⟨name, .null, "a claim", none⟩

private def noon : Clock := fun _ => ⟨0⟩

private def calling (name : String) : List Scheduled := [⟨scribe, .executeTool (served name) ["web"] (bare name), noon, 5, 0⟩]

private def calledPath (name : String) : String :=
  evidenceRelpath "a claim" (EvidenceRecord.new name .null .null ⟨0⟩).id

private def calledFor (name : String) : Observed := ⟨name, .null, .null, ⟨0⟩, "a claim", ⟨0⟩⟩

/-- On the disk the record of the call is there, and the disk answers as before. -/
private theorem called (name : String) (served_by : (dispatchTool (served name) ["web"] (bare name) (noon 0)) =
      .ok (calledFor name).record) :
    let after := desk.step scrivener ⟨⟨0⟩⟩ ⟨scribe, .executeTool (served name) ["web"] (bare name), noon, 5, 0⟩
    citedBytes (.openForAgent ⟨⟨0⟩⟩ scribe) after.files (calledPath name) = some (.evidence (calledFor name).record) ∧
      after.db = staff ∧ agentKeys.Clear after.files := by
  obtain ⟨recorded, db, -, alive⟩ := @tool_recorded LocalStorage _ _ agentKeys.footing scrivener ⟨⟨0⟩⟩ scribe desk
    (served name) ["web"] (bare name) noon .null (agentKeys_houses _ _) agentKeys.frees agentKeys.clear_empty served_by
    (desk_pristine.evidence scribe)
  exact ⟨recorded, db, alive⟩

/-- A server's tool is called `reconcile`, and takes no arguments. The gate lets its record
through, and the output is replaced before the record turns out to name no child. -/
theorem accepted_output_unpinned : ∃ final outputs written after db,
    (graphActivities scrivener ⟨⟨0⟩⟩).run desk (calling "reconcile") = some (final, outputs) ∧
    (AgentFs.openForAgent ⟨⟨0⟩⟩ scribe).persistOutput "Yes." [calledPath "reconcile"] final.files = .ok written ∧
    persistOutputImpl scrivener noon scribe (FsHandle.forAgent ⟨⟨0⟩⟩ scribe).storagePrefix "Yes." [calledPath "reconcile"]
      final.files final.db = (.error (.missing "child_agent_id"), after, db) ∧
    viewAt after ((AgentFs.openForAgent ⟨⟨0⟩⟩ scribe).key CANONICAL_OUTPUT) = some (.text "Yes.") := by
  obtain ⟨recorded, db, alive⟩ := called "reconcile" (by rfl)
  have housed := agentKeys_houses ⟨⟨0⟩⟩ scribe
  have finds := agentKeys_finds ⟨⟨0⟩⟩ scribe (calledFor "reconcile")
  obtain ⟨written, accepted, -⟩ := @lasting_persistOutput LocalStorage _ _ agentKeys.footing _ 0
    (.openForAgent ⟨⟨0⟩⟩ scribe) "Yes." [calledPath "reconcile"] (List.cons_ne_nil _ _) housed finds alive
    fun path member => by
      obtain rfl := List.mem_singleton.mp member
      exact Option.isSome_iff_exists.mpr ⟨_, recorded⟩
  rw [← attach_forAgent] at housed finds recorded
  obtain ⟨after, final, failed, output, -⟩ := @lasting_unpinned LocalStorage StructuralDb _ _ _ _ agentKeys.footing scrivener
    _ staff 0 0 noon scribe (FsHandle.forAgent ⟨⟨0⟩⟩ scribe).storagePrefix "Yes." _ _ (.missing "child_agent_id") housed
    finds alive trivial (show scribe ∈ [scribe] from List.mem_cons_self) recorded (by rfl)
  rw [attach_forAgent] at output
  exact ⟨_, _, written, after, final, rfl, accepted, by rw [db]; exact failed, output⟩

/-- The record of a tool by another name is pinned, on a disk as well. -/
theorem accepted_output_persisted_search : ∃ final outputs after db,
    (graphActivities scrivener ⟨⟨0⟩⟩).run desk (calling "search") = some (final, outputs) ∧
    persistOutputImpl scrivener noon scribe (FsHandle.forAgent ⟨⟨0⟩⟩ scribe).storagePrefix "Yes." [calledPath "search"]
      final.files final.db = (.ok (.new "Yes."), after, db) := by
  obtain ⟨recorded, rows, alive⟩ := called "search" (by rfl)
  obtain ⟨written, accepted, -⟩ := @lasting_persistOutput LocalStorage _ _ agentKeys.footing _ 3
    (.openForAgent ⟨⟨0⟩⟩ scribe) "Yes." [calledPath "search"] (List.cons_ne_nil _ _) (agentKeys_houses _ _)
    (agentKeys_finds _ _ (calledFor "search")) alive fun path member => by
      obtain rfl := List.mem_singleton.mp member
      exact Option.isSome_iff_exists.mpr ⟨_, recorded⟩
  have elsewhere : ¬ ("search" = "reconcile") := by decide
  have pinnable : (graphActivities scrivener ⟨⟨0⟩⟩).Along (fun state event => event.Pinnable scrivener ⟨⟨0⟩⟩ state) desk
      (calling "search") :=
    ((graphActivities scrivener _).along_cons rfl).mpr ⟨fun named => (elsewhere named).elim, trivial⟩
  have known : scribe ∈ staff.agents := List.mem_cons_self
  have reads : Reads scrivener staff.agents := by
    intro id member
    obtain rfl := List.mem_singleton.mp member
    rfl
  obtain ⟨-, after, db, persisted⟩ := accepted_output_persisted scrivener_faithful desk_pristine pinnable rfl
    (by rw [rows]; exact reads) (by rw [rows]; exact known) (agentKeys_houses _ _) alive accepted noon
  exact ⟨_, _, after, db, rfl, persisted⟩

end Examples

end Coral.Proofs

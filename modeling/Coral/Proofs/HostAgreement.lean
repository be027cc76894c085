import Coral.Proofs.Papers

/-! The two hosts beside each other. Whatever the model decides on, a step tells it the same on
either of them, and leaves the same notes, evidence and outputs. -/

namespace Coral.Proofs
open Coral.Library Coral.Temporal LawfulStorage

section Batches

variable {σ : Type} [AgentStorage σ] [LawfulStorage σ] [Unobstructing σ] {fs : AgentFs} {storage after : σ}
  {answers : Nat → Except String Json} {called written : Clock}

omit [LawfulStorage σ] [Unobstructing σ] [AgentStorage σ] in
/-- What an observation is, apart from when it was noted. -/
theorem observedCalls_noted (written' : Clock) (calls : List (ToolCall × Nat)) :
    (calls.filterMap (observedCall answers called written)).map (fun observed => { observed with now := ⟨0⟩ }) =
      (calls.filterMap (observedCall answers called written')).map fun observed => { observed with now := ⟨0⟩ } := by
  rw [List.map_filterMap, List.map_filterMap]
  refine congrArg (fun pick => calls.filterMap pick) (funext fun call => ?_)
  unfold observedCall
  cases answers call.2 <;> rfl

theorem Papers.recordAll_nil (papers : Papers) : papers.recordAll [] = papers := by
  unfold Papers.recordAll
  rw [List.foldl_nil]

theorem Papers.recordAll_cons (papers : Papers) (observed : Observed) (history : List Observed) :
    papers.recordAll (observed :: history) = (papers.record observed).recordAll history := by
  unfold Papers.recordAll
  rw [List.foldl_cons]

theorem relpath_noted (observed : Observed) : Observed.relpath { observed with now := ⟨0⟩ } = observed.relpath := rfl

theorem record_noted (papers : Papers) (observed : Observed) :
    papers.record { observed with now := ⟨0⟩ } = papers.record observed := by
  unfold Papers.record
  rw [relpath_noted, show Observed.record { observed with now := ⟨0⟩ } = observed.record from rfl]

theorem recordAll_noted (papers : Papers) (history : List Observed) :
    papers.recordAll (history.map fun observed => { observed with now := ⟨0⟩ }) = papers.recordAll history := by
  induction history generalizing papers with
  | nil => rw [List.map_nil]
  | cons observed history ih => rw [List.map_cons, Papers.recordAll_cons, Papers.recordAll_cons, record_noted, ih]

theorem relpaths_noted (history : List Observed) :
    (history.map fun observed => { observed with now := ⟨0⟩ }).map Observed.relpath = history.map Observed.relpath := by
  rw [List.map_map]
  refine List.map_congr_left fun observed _ => ?_
  rw [Function.comp_apply, relpath_noted]

theorem recordings_papers (attached : Attached fs) {history : List Observed} {paths : List String}
    (unblocked : Unblocked fs storage) (ran : (recordings fs).run storage history = some (after, paths)) :
    paths = history.map Observed.relpath ∧ papersOf fs after = (papersOf fs storage).recordAll history ∧
      Unblocked fs after := by
  induction history generalizing storage paths with
  | nil =>
    obtain ⟨rfl, rfl⟩ : storage = after ∧ [] = paths := by simpa using ran
    exact ⟨rfl, rfl, unblocked⟩
  | cons observed history ih =>
    obtain ⟨middle, first, rest, stepped, continued, rfl⟩ := (recordings fs).run_cons.mp ran
    obtain ⟨rfl, recorded⟩ := recordings_step.mp stepped
    obtain ⟨-, papers⟩ := recordEvidence_papers attached unblocked recorded
    have kept := (unblocked_lockstep attached).recordEvidence (serves_clears fs) ⟨rfl, unblocked⟩ observed.now observed
    rw [recorded] at kept
    obtain ⟨rfl, final, clear⟩ := ih kept.2.2 continued
    refine ⟨rfl, ?_, clear⟩
    rw [final, papers, Papers.recordAll_cons]

/-- A call of a granted tool that there is comes to what the tool answers. -/
theorem dispatchTool_granted {registry : ToolRegistry} {allowedTools : List String} {call : ToolCall}
    (known : registry.contains call.name = true) (granted : registry.isCallAllowed call.name allowedTools = true)
    (now : DateTime) : dispatchTool (.ok registry) allowedTools call now =
      match registry.answer call with
      | .ok result => .ok (.new call.name call.args result now)
      | .error error => .error ⟨call.name, call.args, error⟩ := by
  obtain ⟨tool, registered⟩ := Option.isSome_iff_exists.mp known
  unfold dispatchTool
  simp only [granted, Bool.true_eq_false, if_false]
  unfold ToolRegistry.call ToolRegistry.answer
  rw [registered]
  simp only [bind, Except.bind]
  cases tool call.args <;> rfl

def outcomeOf (answers : Nat → Except String Json) (called : Clock) (call : ToolCall × Nat) : ToolCallOutcome :=
  match answers call.2 with
  | .ok result =>
    .success (evidenceRelpath call.1.claimSeed (EvidenceRecord.new call.1.name call.1.args result (called call.2)).id)
  | .error error => .failure ⟨call.1.name, call.1.args, error⟩

/-- The activity of one call records what the call observes. -/
theorem executeTool_papers {step : HostStep} {fsHandle : FsHandle} {allowedTools : List String} {call : ToolCall} {place : Nat}
    {outcome : ToolCallOutcome} (known : step.registry.contains call.name = true)
    (granted : step.registry.isCallAllowed call.name allowedTools = true)
    (answered : answers place = step.registry.answer call)
    (unblocked : Unblocked (.attach fsHandle.storagePrefix) storage)
    (executed : executeTool fsHandle (.ok step.registry) allowedTools call (step.callClock place) storage =
      (.ok outcome, after)) :
    outcome = outcomeOf answers step.called (call, place) ∧
      papersOf (.attach fsHandle.storagePrefix) after = (papersOf (.attach fsHandle.storagePrefix) storage).recordAll
        (observedCall answers step.called step.called (call, place)).toList ∧
      Unblocked (.attach fsHandle.storagePrefix) after := by
  have attached := attached_attach fsHandle.storagePrefix
  unfold executeTool at executed
  rw [dispatchTool_granted known granted] at executed
  unfold outcomeOf observedCall
  simp only
  rw [answered]
  cases answer : step.registry.answer call with
  | error error =>
    rw [answer] at executed
    cases executed
    exact ⟨rfl, rfl, unblocked⟩
  | ok result =>
    rw [answer] at executed
    simp only at executed
    generalize opening : AgentFs.openWithStorage fsHandle.storagePrefix placeholderMandate
      (fun reading => step.callClock place (reading + 1)) storage = ended at executed
    obtain ⟨agent, opened⟩ := ended
    obtain ⟨same, named⟩ := papersOf_open opening
    have kept := (unblocked_lockstep attached).openWithStorage (serves_clears _) ⟨rfl, unblocked⟩ placeholderMandate
      (fun reading => step.callClock place (reading + 1))
    rw [opening] at kept
    cases agent with
    | error error => cases executed
    | ok fs =>
      obtain rfl := named fs rfl
      simp only at executed
      let observed : Observed := ⟨call.name, call.args, result, step.called place, call.claimSeed, step.called place⟩
      have filed := (unblocked_lockstep attached).recordEvidence (serves_clears _) ⟨rfl, kept.2.2⟩
        (step.callClock place 3) observed
      generalize recording : (AgentFs.attach fsHandle.storagePrefix).recordEvidence (step.callClock place 3)
        observed.record observed.slugSeed opened = recorded at filed
      obtain ⟨ended, final⟩ := recorded
      rw [show AgentFs.recordEvidence (.attach fsHandle.storagePrefix) (step.callClock place 3)
        (.new call.name call.args result (step.callClock place 0)) call.claimSeed opened = (ended, final) from recording]
        at executed
      cases ended with
      | error error => cases executed
      | ok path =>
        cases executed
        obtain ⟨rfl, papers⟩ := recordEvidence_papers attached kept.2.2 recording
        refine ⟨rfl, ?_, filed.2.2⟩
        rw [papers, same, Option.toList_some, Papers.recordAll_cons, Papers.recordAll_nil]

/-- The activities of a batch, one after another, record what the calls observe. -/
theorem serveTools_papers {step : HostStep} {fsHandle : FsHandle} {allowedTools : List String} {cfg : AgentConfig}
    {graphId : GraphId} {calls : List ToolCall} {place : Nat} {outcomes : List ToolCallOutcome}
    (granted : ∀ call ∈ calls, step.registry.contains call.name = true ∧
      step.registry.isCallAllowed call.name allowedTools = true)
    (answered : ∀ call ∈ calls.zipIdx place, answers call.2 = step.registry.answer call.1)
    (unblocked : Unblocked (.attach fsHandle.storagePrefix) storage)
    (served : step.serveTools place (calls.map fun call =>
      .activity (.executeTool cfg fsHandle graphId allowedTools call)) storage = some (outcomes, after)) :
    outcomes = (calls.zipIdx place).map (outcomeOf answers step.called) ∧
      papersOf (.attach fsHandle.storagePrefix) after = (papersOf (.attach fsHandle.storagePrefix) storage).recordAll
        ((calls.zipIdx place).filterMap (observedCall answers step.called step.called)) ∧
      Unblocked (.attach fsHandle.storagePrefix) after := by
  induction calls generalizing storage place outcomes with
  | nil =>
    cases served
    exact ⟨rfl, rfl, unblocked⟩
  | cons call calls ih =>
    obtain ⟨⟨known, allowed⟩, others⟩ := List.forall_mem_cons.mp granted
    rw [List.zipIdx_cons] at answered ⊢
    obtain ⟨here, later⟩ := List.forall_mem_cons.mp answered
    rw [List.map_cons] at served
    unfold HostStep.serveTools at served
    simp only at served
    cases executed : executeTool fsHandle (.ok step.registry) allowedTools call (step.callClock place) storage with
    | mk result middle =>
      rw [executed] at served
      cases result with
      | error error => cases served
      | ok outcome =>
        obtain ⟨rfl, first, clear⟩ := executeTool_papers known allowed here unblocked executed
        obtain ⟨⟨rest, final⟩, continued, shape⟩ := Option.map_eq_some_iff.mp served
        cases shape
        obtain ⟨rfl, papers, ended⟩ := ih others later clear continued
        refine ⟨rfl, ?_, ended⟩
        rw [papers, first, List.filterMap_cons]
        cases observedCall answers step.called step.called (call, place) with
        | none => rw [Option.toList_none, Papers.recordAll_nil]
        | some observed => rw [Option.toList_some, Papers.recordAll_cons, Papers.recordAll_cons, Papers.recordAll_nil]

/-- What a batch observes is recorded alike, whenever it is written. -/
theorem recordAll_observed (papers : Papers) (written' : Clock) (calls : List ToolCall) :
    papers.recordAll (observedCalls answers called written calls) =
      papers.recordAll (observedCalls answers called written' calls) := by
  unfold observedCalls
  rw [← recordAll_noted, observedCalls_noted written', recordAll_noted]

theorem relpaths_observed (written' : Clock) (calls : List ToolCall) :
    (observedCalls answers called written calls).map Observed.relpath =
      (observedCalls answers called written' calls).map Observed.relpath := by
  unfold observedCalls
  rw [← relpaths_noted, observedCalls_noted written', relpaths_noted]

/-- What a finished batch tells of its records. -/
def toldBatch (failed : Bool) (recorded : List String) : Told :=
  if failed = false then
    some (toString recorded.length ++ " tool call(s) succeeded; cite this evidence: " ++ String.intercalate ", " recorded)
  else none

theorem batchOutcome_told (failures : List ToolFailure) (recorded : List String) :
    (toldBatch (!failures.isEmpty) recorded).Says (batchOutcome failures recorded).observation := by
  unfold batchOutcome
  cases failures with
  | nil => exact rfl
  | cons failure failures => exact rfl

theorem toldBatch_observed (calls : List ToolCall) :
    toldBatch (!(failedCalls answers calls).isEmpty) ((observedCalls answers called written calls).map Observed.relpath) =
      if failedCalls answers calls = [] then
        some (toString (observedCalls answers called called calls).length ++ " tool call(s) succeeded; cite this evidence: " ++
          String.intercalate ", " ((observedCalls answers called called calls).map Observed.relpath))
      else none := by
  rw [relpaths_observed called]
  unfold toldBatch
  rw [List.length_map]
  by_cases none_ : failedCalls answers calls = []
  · rw [if_pos none_, if_pos (by rw [none_]; rfl)]
  · rw [if_neg none_, if_neg (by simpa using none_)]

/-- A batch of tools that there are, on the in-process host. -/
theorem executeCallTools_papers (attached : Attached fs) (unblocked : Unblocked fs storage) {registry : ToolRegistry}
    {calls : List ToolCall} (known : unknownNames registry calls = []) {outcome : StepOutcome}
    (executed : (executeCallTools fs registry answers called written calls storage).2 = (.ok outcome, after)) :
    (toldBatch (!(failedCalls answers calls).isEmpty)
        ((observedCalls answers called written calls).map Observed.relpath)).Says outcome.observation ∧
      papersOf fs after = (papersOf fs storage).recordAll (observedCalls answers called written calls) ∧
      Unblocked fs after := by
  rw [executeCallTools_known known] at executed
  split at executed
  · cases executed
  · rename_i failures recorded final ended
    cases executed
    obtain ⟨rfl, ran⟩ := recordResults_ok ended
    obtain ⟨rfl, papers, clear⟩ := recordings_papers attached unblocked ran
    exact ⟨batchOutcome_told _ _, papers, clear⟩

end Batches

section Calls

variable {answers : Nat → Except String Json} {called : Clock}

def failureOf : ToolCallOutcome → Option ToolCallFailure
  | .failure failure => some failure
  | .success _ => none

def pathOf : ToolCallOutcome → Option String
  | .success evidencePath => some evidencePath
  | .failure _ => none

theorem toolsObservation_eq (outcomes : List ToolCallOutcome) :
    toolsObservation outcomes =
      if (outcomes.filterMap failureOf).isEmpty then
        .success (toString (outcomes.filterMap pathOf).length ++ " tool call(s) succeeded; cite this evidence: " ++
          String.intercalate ", " (outcomes.filterMap pathOf))
      else .failure (formatCorrection (outcomes.filterMap failureOf)) := rfl

theorem failures_outcomes (calls : List (ToolCall × Nat)) :
    ((calls.map (outcomeOf answers called)).filterMap failureOf).isEmpty =
      (calls.filterMap (failedCall answers)).isEmpty := by
  induction calls with
  | nil => rfl
  | cons call calls ih =>
    rw [List.map_cons, List.filterMap_cons, List.filterMap_cons]
    unfold outcomeOf failedCall
    cases answers call.2 with
    | ok result => exact ih
    | error error => rfl

theorem paths_outcomes (calls : List (ToolCall × Nat)) :
    (calls.map (outcomeOf answers called)).filterMap pathOf =
      (calls.filterMap (observedCall answers called called)).map Observed.relpath := by
  rw [List.filterMap_map, List.map_filterMap]
  refine congrArg (fun pick => calls.filterMap pick) (funext fun call => ?_)
  rw [Function.comp_apply]
  unfold outcomeOf observedCall
  cases answers call.2 with
  | ok result => exact congrArg some rfl
  | error error => rfl

/-- The observation of a batch tells of its calls what the in-process host tells of them. -/
theorem toolsObservation_told (calls : List (ToolCall × Nat)) :
    (toldBatch (!(calls.filterMap (failedCall answers)).isEmpty)
        ((calls.filterMap (observedCall answers called called)).map Observed.relpath)).Says
      (toolsObservation (calls.map (outcomeOf answers called))) := by
  rw [toolsObservation_eq, failures_outcomes, paths_outcomes]
  unfold toldBatch
  cases (calls.filterMap (failedCall answers)).isEmpty with
  | true => exact rfl
  | false => exact rfl

theorem answers_mem {registry : ToolRegistry} {calls : List ToolCall} {call : ToolCall × Nat} (member : call ∈ calls.zipIdx) :
    registry.answers calls call.2 = registry.answer call.1 := by
  unfold ToolRegistry.answers
  rw [List.mk_mem_zipIdx_iff_getElem?.mp member]

theorem unknown_none {registry : ToolRegistry} {calls : List ToolCall}
    (known : ∀ call ∈ calls, registry.contains call.name = true) : unknownNames registry calls = [] := by
  unfold unknownNames
  rw [List.map_eq_nil_iff, List.filter_eq_nil_iff]
  intro call member
  rw [known call member]
  decide

end Calls

section Acts

variable {σ : Type} [AgentStorage σ] [LawfulStorage σ] [Unobstructing σ] {fs : AgentFs} {storage after : σ}
  {render : Content → String} {allowedTools : List String} {observation : Observation} {step : HostStep}

/-- The step tells what it comes to, and leaves the papers as it does. -/
structure Acted (render : Content → String) (fs : AgentFs) (step : HostStep) (storage after : σ) (observation : Observation) :
    Prop where
  told : ((papersOf fs storage).act render step).1.Says observation
  papers : papersOf fs after = ((papersOf fs storage).act render step).2
  unblocked : Unblocked fs after

theorem notedKeys_clears (fs : AgentFs) (ops : List FsOp) : NotedKeys (AgentKey fs) fs ops := by
  intro planned accepted entry member
  obtain ⟨op, -, path, -, rfl⟩ := forall₂_mem_right (planOps_ok accepted) member
  exact ⟨_, @clears_dir notesName (by decide) _, rfl⟩

theorem citedKeys_any (fs : AgentFs) (citations : List String) : CitedKeys (fun _ => True) fs citations :=
  fun _ _ _ _ => trivial

omit [Unobstructing σ] in
theorem acted_tools (calls : List ToolCall) (chosen : step.action = .callTools calls)
    (told : (toldBatch (!(failedCalls (step.registry.answers calls) calls).isEmpty)
      ((observedCalls (step.registry.answers calls) step.called step.called calls).map Observed.relpath)).Says observation)
    (papers : papersOf fs after =
      (papersOf fs storage).recordAll (observedCalls (step.registry.answers calls) step.called step.called calls))
    (unblocked : Unblocked fs after) : Acted render fs step storage after observation := by
  refine ⟨?_, ?_, unblocked⟩
  · unfold Papers.act
    rw [chosen]
    rw [toldBatch_observed] at told
    exact told
  · unfold Papers.act
    rw [chosen]
    exact papers

omit [Unobstructing σ] in
/-- A step that is accepted or refused by what the papers say. -/
theorem acted_if {accepted : Prop} [Decidable accepted] {text : String} {papers : Papers}
    (acts : (papersOf fs storage).act render step =
      if accepted then (some text, papers) else (none, papersOf fs storage))
    (ended : if accepted then observation = .success text ∧ papersOf fs after = papers
      else observation.ok = false ∧ papersOf fs after = papersOf fs storage)
    (unblocked : Unblocked fs after) : Acted render fs step storage after observation := by
  by_cases agreed : accepted
  · rw [if_pos agreed] at acts ended
    exact ⟨by rw [acts]; exact ended.1, by rw [acts]; exact ended.2, unblocked⟩
  · rw [if_neg agreed] at acts ended
    exact ⟨by rw [acts]; exact ended.1, by rw [acts]; exact ended.2, unblocked⟩

omit [LawfulStorage σ] [Unobstructing σ] [AgentStorage σ] in
theorem act_output {papers : Papers} {body : String} {citations : List String}
    (chosen : step.action = .writeOutput body citations) :
    papers.act render step = if papers.cites citations = true then
      (some "output persisted", Function.update papers (keyPath CANONICAL_OUTPUT) (some (.text body)))
      else (none, papers) := by
  unfold Papers.act
  rw [chosen]

omit [LawfulStorage σ] [Unobstructing σ] [AgentStorage σ] in
theorem act_notes {papers : Papers} {ops : List FsOp} (chosen : step.action = .rewriteFs ops) :
    papers.act render step = if ∀ op ∈ ops, (notePath op.path).isSome = true then
      (some "notes updated", papers.withNotes (papers.notes.edits ops)) else (none, papers) := by
  unfold Papers.act
  rw [chosen]

omit [Unobstructing σ] in
/-- What is read off the files is what the papers say. -/
theorem acted_read {path : String} (chosen : step.action = .read path)
    (paper : ∀ rel, AgentFs.cleanRelpath path = .ok rel → IsPaper (keyPath rel))
    {outcome : StepOutcome}
    (answered : correcting "read" ((fs.readFile render storage path).map .ok) = .ok outcome)
    (unblocked : Unblocked fs storage) : Acted render fs step storage storage outcome.observation := by
  have told : ((papersOf fs storage).act render step).1.Says outcome.observation ∧
      ((papersOf fs storage).act render step).2 = papersOf fs storage := by
    unfold Papers.act
    rw [chosen]
    unfold AgentFs.readFile at answered
    simp only
    cases cleaned : AgentFs.cleanRelpath path with
    | error error =>
      rw [cleaned] at answered
      unfold correcting at answered
      simp only [bind, Except.bind, Except.map] at answered
      split at answered
      · cases answered
        exact ⟨rfl, rfl⟩
      · cases answered
    | ok rel =>
      have known := paper rel cleaned
      have whole : rel = joinPath (keyPath rel) := by
        obtain ⟨parts, rfl⟩ := cleanRelpath_ok cleaned
        rw [keyPath_joinPath]
      rw [cleaned] at answered
      simp only [bind, Except.bind] at answered ⊢
      cases got : AgentFs.get storage (fs.key rel) with
      | error error =>
        rw [got] at answered
        have faultless := (stored_infrastructural _ _ : Infrastructural (AgentFs.get storage (fs.key rel))).faultless got
        unfold correcting at answered
        simp only [Except.map, faultless, Bool.false_eq_true, if_false] at answered
        cases answered
      | ok found =>
        rw [got] at answered
        rw [← get_paper whole known got]
        cases found with
        | none =>
          cases answered
          exact ⟨rfl, trivial⟩
        | some content =>
          cases answered
          exact ⟨rfl, trivial⟩
  exact ⟨told.1, told.2.symm, unblocked⟩

/-- An output of the in-process host. -/
theorem writeOutput_papers (attached : Attached fs) (unblocked : Unblocked fs storage) {body : String} {citations : List String}
    {outcome : StepOutcome} (written : writeOutput fs body citations storage = (.ok outcome, after)) :
    (if (papersOf fs storage).cites citations = true then outcome.observation = .success "output persisted" ∧
        papersOf fs after = Function.update (papersOf fs storage) (keyPath CANONICAL_OUTPUT) (some (.text body))
      else outcome.observation.ok = false ∧ papersOf fs after = papersOf fs storage) ∧ Unblocked fs after := by
  obtain ⟨persisted, mistaken⟩ := @persistOutput_papers σ _ _ fs storage attached body citations
  have kept := (unblocked_lockstep attached).persistOutput (serves_clears fs) ⟨rfl, unblocked⟩ body
    (citedKeys_any fs citations)
  unfold writeOutput at written
  split at written
  · rename_i final ended
    cases written
    obtain ⟨cited, papers⟩ := persisted _ ended
    rw [ended] at kept
    rw [if_pos cited]
    exact ⟨⟨rfl, papers⟩, kept.2⟩
  · rename_i ended
    cases written
    rw [if_neg (by rw [mistaken _ ended rfl]; decide)]
    exact ⟨⟨rfl, rfl⟩, unblocked⟩
  · rename_i path ended
    cases written
    rw [if_neg (by rw [mistaken _ ended rfl]; decide)]
    exact ⟨⟨rfl, rfl⟩, unblocked⟩
  · rename_i path ended
    cases written
    rw [if_neg (by rw [mistaken _ ended rfl]; decide)]
    exact ⟨⟨rfl, rfl⟩, unblocked⟩
  · cases written

/-- A step of the in-process host does to the papers what it comes to. -/
theorem inProcess_acted (attached : Attached fs) (unblocked : Unblocked fs storage) (shared : Shared allowedTools step)
    (stepped : step.inProcess render fs storage = some (observation, after)) :
    Acted render fs step storage after observation := by
  unfold HostStep.inProcess at stepped
  simp only at stepped
  split at stepped
  · rename_i outcome final executed
    cases stepped
    unfold executeStep at executed
    unfold Shared at shared
    cases chosen : step.action with
    | callTools calls =>
      rw [chosen] at executed shared
      obtain ⟨told, papers, clear⟩ := executeCallTools_papers attached unblocked
        (unknown_none fun call member => (shared call member).1) (Option.some.inj executed)
      rw [relpaths_observed step.called] at told
      rw [recordAll_observed _ step.called] at papers
      exact acted_tools calls chosen told papers clear
    | writeOutput body citations =>
      rw [chosen] at executed
      obtain ⟨ended, clear⟩ := writeOutput_papers attached unblocked (Option.some.inj executed)
      exact acted_if (act_output chosen) ended clear
    | rewriteFs ops =>
      rw [chosen] at executed
      have answered := Option.some.inj executed
      have kept := (unblocked_lockstep attached).rewriteFs (serves_clears fs) ⟨rfl, unblocked⟩ (step.readings 0)
        (notedKeys_clears fs ops)
      rw [answered] at kept
      exact acted_if (act_notes chosen) (rewriteFs_papers attached answered) kept.2.2
    | read path =>
      rw [chosen] at executed shared
      obtain ⟨answered, rfl⟩ := Prod.mk.inj (Option.some.inj executed)
      exact acted_read chosen shared answered unblocked
    | _ =>
      rw [chosen] at shared
      exact shared.elim
  · cases stepped

end Acts

section Activities

variable {σ δ : Type} [AgentStorage σ] [LawfulStorage σ] [Unobstructing σ] [StructuralDbStore δ]
  {storage after : σ} {db rows : δ} {codec : Codec} {render : Content → String} {ctx : Context}
  {observation : Observation} {step : HostStep}

omit [LawfulStorage σ] [Unobstructing σ] [AgentStorage σ] in
theorem cited_update (papers : Papers) (body : Option Content) (path : String) :
    Papers.cited (Function.update papers (keyPath CANONICAL_OUTPUT) body) path = papers.cited path := by
  unfold Papers.cited
  cases checked : AgentFs.evidenceRelpathChecked path with
  | error error => rfl
  | ok rel =>
    obtain ⟨-, -, apart⟩ := checked_paper checked
    simp only
    rw [Function.update_of_ne apart]

omit [Unobstructing σ] in
/-- What is cited can be read, so no citation is a mistake of the model any more. -/
theorem addCitations_faultless {fs : AgentFs} {agentId : AgentId} {outputSha : BlobSha} {citations : List String}
    (cited : ∀ path ∈ citations, (papersOf fs storage).cited path = true) {error : FsError}
    (ended : addCitations codec fs agentId outputSha storage citations db = (.error (.fs error), rows)) :
    error.isModelFault = false := by
  induction citations generalizing db with
  | nil => cases ended
  | cons path citations ih =>
    obtain ⟨here, others⟩ := List.forall_mem_cons.mp cited
    unfold addCitations at ended
    split at ended
    · rename_i failed resolved
      cases ended
      unfold resolveCited at resolved
      split at resolved
      · rename_i failed read
        cases resolved
        by_contra fault
        have missing := (@readEvidenceBytes_papers σ _ _ fs storage path).2 _ read (by simpa using fault)
        rw [here] at missing
        cases missing
      · unfold resolveRecord at resolved
        repeat' split at resolved
        all_goals cases resolved
    · split at ended
      · cases ended
      · exact ih others ended

theorem persistOutcome_error {failed : PersistError} {output : PersistOutputOutput}
    (reported : persistOutcome (.error failed) = .ok output) :
    ∃ error, failed = .fs error ∧ error.isModelFault = true ∧ output.observation.ok = false := by
  cases failed with
  | fs error =>
    unfold persistOutcome at reported
    simp only at reported
    split at reported
    · rename_i fault
      cases reported
      exact ⟨error, rfl, fault, rfl⟩
    · cases reported
  | _ => cases reported

/-- The activity that persists an output does what the in-process host does. -/
theorem persistOutputImpl_papers {raw body : String} {clock : Clock} {agentId : AgentId} {citations : List String}
    {result : Except PersistError OutputId} {output : PersistOutputOutput} (unblocked : Unblocked (.attach raw) storage)
    (ran : persistOutputImpl codec clock agentId raw body citations storage db = (result, after, rows))
    (reported : persistOutcome result = .ok output) :
    (if (papersOf (.attach raw) storage).cites citations = true then output.observation = .success "output persisted" ∧
        papersOf (.attach raw) after =
          Function.update (papersOf (.attach raw) storage) (keyPath CANONICAL_OUTPUT) (some (.text body))
      else output.observation.ok = false ∧ papersOf (.attach raw) after = papersOf (.attach raw) storage) ∧
      Unblocked (.attach raw) after := by
  have attached := attached_attach raw
  obtain ⟨_, _, _, _, one, two, -, clear⟩ := @Lockstep.persistOutputImpl _ _ _ _ _ _ _ _ _ _ citations δ _ codec agentId
    (unblocked_lockstep attached) raw (serves_clears _) ⟨rfl, unblocked⟩ clock body (citedKeys_any _ citations) db
  rw [ran] at one
  cases one
  refine ⟨?_, clear⟩
  unfold persistOutputImpl at ran
  generalize opening : AgentFs.openWithStorage raw (.new "" ⟨0⟩ none) clock storage = ended at ran
  obtain ⟨agent, opened⟩ := ended
  obtain ⟨same, named⟩ := papersOf_open opening
  have known := @open_infrastructural σ _ raw (.new "" ⟨0⟩ none) clock storage
  rw [opening] at known
  cases agent with
  | error error =>
    cases ran
    obtain ⟨_, whole, fault, -⟩ := persistOutcome_error reported
    cases whole
    rw [known.faultless rfl] at fault
    cases fault
  | ok fs =>
    obtain rfl := named fs rfl
    obtain ⟨persisted, mistaken⟩ := @persistOutput_papers σ _ _ _ opened attached body citations
    rw [same] at persisted mistaken
    simp only at ran
    cases ended : (AgentFs.attach raw).persistOutput body citations opened with
    | error error =>
      rw [ended] at ran
      cases ran
      obtain ⟨_, whole, fault, failed⟩ := persistOutcome_error reported
      cases whole
      rw [if_neg (by rw [mistaken _ ended fault]; decide)]
      exact ⟨failed, same⟩
    | ok written =>
      obtain ⟨cited, papers⟩ := persisted written ended
      rw [ended] at ran
      rw [if_pos cited]
      simp only at ran
      split at ran
      · cases ran
        cases reported
      · split at ran
        · rename_i failed rows' cites
          cases ran
          obtain ⟨error, rfl, fault, -⟩ := persistOutcome_error reported
          have there : ∀ path ∈ citations, (papersOf (.attach raw) after).cited path = true := by
            intro path member
            unfold Papers.cites at cited
            rw [Bool.and_eq_true, List.all_eq_true] at cited
            rw [papers, cited_update]
            exact cited.2 path member
          rw [addCitations_faultless there cites] at fault
          cases fault
        · cases ran
          cases reported
          exact ⟨rfl, papers⟩

omit [Unobstructing σ] in
theorem applyFsOpsImpl_papers {fsHandle : FsHandle} {mandate : Mandate} {clock : Clock} {ops : List FsOp}
    (ran : applyFsOpsImpl fsHandle mandate ops clock storage = (.ok observation, after)) :
    if ∀ op ∈ ops, (notePath op.path).isSome = true then
      observation = .success "notes updated" ∧ papersOf (.attach fsHandle.storagePrefix) after =
        (papersOf (.attach fsHandle.storagePrefix) storage).withNotes
          ((papersOf (.attach fsHandle.storagePrefix) storage).notes.edits ops)
    else observation.ok = false ∧
      papersOf (.attach fsHandle.storagePrefix) after = papersOf (.attach fsHandle.storagePrefix) storage := by
  unfold applyFsOpsImpl at ran
  split at ran
  · cases ran
  · rename_i fs opened opening
    obtain ⟨same, named⟩ := papersOf_open opening
    obtain rfl := named fs rfl
    split at ran
    · rename_i outcome final answered
      cases ran
      have ended := rewriteFs_papers (attached_attach _) answered
      rwa [same] at ended
    · cases ran

omit [Unobstructing σ] in
theorem appendDecisionLog_papers {fsHandle : FsHandle} {entry : DecisionLogEntry}
    (logged : appendDecisionLogImpl codec fsHandle entry storage = (.ok (), after)) :
    papersOf (.attach fsHandle.storagePrefix) after = papersOf (.attach fsHandle.storagePrefix) storage := by
  unfold appendDecisionLogImpl AgentFs.settle at logged
  simp only at logged
  split at logged
  · rename_i final written
    cases logged
    refine papersOf_aside (attached_attach _) ?_ (put_spec written).2
    simp only [String.append_assoc]
    rw [show "decisions/" = decisionsName.text ++ "/" from rfl, keyPath_dir]
    rintro (⟨other, -⟩ | ⟨other, -⟩ | ⟨other, -⟩)
    · exact absurd other (by decide)
    · exact absurd other (by decide)
    · exact absurd other (by decide)
  · cases logged

omit [LawfulStorage σ] [Unobstructing σ] in
theorem serve_tools (calls : List ToolCall) (cfg : AgentConfig) (fsHandle : FsHandle) (graphId : GraphId)
    (allowedTools : List String) (logged : σ) :
    step.serve codec render (calls.map fun call => .activity (.executeTool cfg fsHandle graphId allowedTools call)) logged db =
      (step.serveTools 0 (calls.map fun call => .activity (.executeTool cfg fsHandle graphId allowedTools call)) logged).map
        fun (outcomes, after) => (.toolsExecuted outcomes, after, db) := by
  cases calls with
  | nil => rfl
  | cons call calls =>
    cases calls with
    | nil => rfl
    | cons other calls => rfl

theorem observed_tools {calls : Nat} {outcomes : List ToolCallOutcome}
    (observed : ctx.observed (.executeTools calls) (.toolsExecuted outcomes) = some observation) :
    observation = toolsObservation outcomes := by
  unfold Context.observed Context.answer at observed
  simp only at observed
  split at observed
  · rename_i same
    split at same
    · cases same
      exact (Option.some.inj observed).symm
    · cases same
  · rename_i same
    split at same
    · cases same
    · cases same
  · cases observed

theorem observed_output {outputId : Option OutputId} {reported : Observation}
    (observed : ctx.observed .persistOutput (.outputPersisted outputId reported) = some observation) :
    observation = reported := by
  unfold Context.observed Context.answer at observed
  cases outputId with
  | none => exact (Option.some.inj observed).symm
  | some outputId =>
    cases parent : ctx.input.parentHandle with
    | none =>
      rw [parent] at observed
      exact (Option.some.inj observed).symm
    | some parentHandle =>
      rw [parent] at observed
      exact (Option.some.inj observed).symm

/-- A step of the workflow host and its worker does to the papers what it comes to. -/
theorem worker_acted (unblocked : Unblocked (.attach ctx.input.fsHandle.storagePrefix) storage)
    (shared : Shared ctx.input.mandate.tools step)
    (stepped : step.worker codec render ctx storage db = some (observation, after, rows)) :
    Acted render (.attach ctx.input.fsHandle.storagePrefix) step storage after observation := by
  have attached := attached_attach ctx.input.fsHandle.storagePrefix
  have lockstep := @unblocked_lockstep σ _ _ (.attach ctx.input.fsHandle.storagePrefix) _ attached
  have serves := serves_clears (.attach ctx.input.fsHandle.storagePrefix)
  unfold HostStep.worker at stepped
  simp only at stepped
  split at stepped
  · rename_i logged executing effects logs acts
    have same := appendDecisionLog_papers logs
    have kept := @Lockstep.appendDecisionLogImpl _ _ _ _ _ _ _ _ _ _ codec lockstep _ serves ⟨rfl, unblocked⟩
      ⟨step.tick, step.step, step.decisionSummary, step.readings 0 0⟩
    rw [logs] at kept
    have clear := kept.2.2
    split at stepped
    · rename_i reply final rows' served
      obtain ⟨reported, observed, shape⟩ := Option.map_eq_some_iff.mp stepped
      cases shape
      -- The decision's own entry is none of the papers.
      suffices acted : Acted render (.attach ctx.input.fsHandle.storagePrefix) step logged after observation from
        ⟨same ▸ acted.told, same ▸ acted.papers, acted.unblocked⟩
      unfold Shared at shared
      cases chosen : step.action with
      | callTools calls =>
        rw [chosen] at acts shared
        cases acts
        rw [serve_tools] at served
        obtain ⟨⟨outcomes, last⟩, ran, shape⟩ := Option.map_eq_some_iff.mp served
        cases shape
        obtain ⟨rfl, papers, ended⟩ := serveTools_papers shared (fun call member => answers_mem member) clear ran
        obtain rfl := observed_tools observed
        exact acted_tools calls chosen (toolsObservation_told _) papers ended
      | writeOutput body citations =>
        rw [chosen] at acts
        cases acts
        unfold HostStep.serve at served
        simp only at served
        generalize ran : persistOutputImpl codec (step.readings 0) ctx.input.agentId ctx.input.fsHandle.storagePrefix body
          citations logged db = ended at served
        obtain ⟨result, last, final⟩ := ended
        simp only at served
        split at served
        · rename_i output persisted
          cases served
          obtain rfl := observed_output observed
          obtain ⟨ended, clear⟩ := persistOutputImpl_papers clear ran persisted
          exact acted_if (act_output chosen) ended clear
        · cases served
      | rewriteFs ops =>
        rw [chosen] at acts
        cases acts
        unfold HostStep.serve at served
        simp only at served
        split at served
        · rename_i reported' last ran
          cases served
          cases observed
          have kept := lockstep.applyFsOpsImpl serves ⟨rfl, clear⟩ (.new "" ⟨0⟩ none) (notedKeys_clears _ ops)
            (step.readings 0)
          rw [ran] at kept
          exact acted_if (act_notes chosen) (applyFsOpsImpl_papers ran) kept.2.2
        · cases served
      | read path =>
        rw [chosen] at acts shared
        cases acts
        unfold HostStep.serve at served
        simp only at served
        split at served
        · rename_i reported' read
          cases served
          cases observed
          unfold readFsImpl at read
          simp only [FsNavOp.intoDecision, executeStep, Option.map_some, Option.some.injEq] at read
          cases answered : correcting "read" (((AgentFs.attach ctx.input.fsHandle.storagePrefix).readFile render after
            path).map .ok) with
          | error error =>
            rw [answered] at read
            cases read
          | ok outcome =>
            rw [answered] at read
            cases read
            exact acted_read chosen shared answered clear
        · cases served
      | _ =>
        rw [chosen] at shared
        exact shared.elim
    · cases stepped
  · cases stepped

end Activities

section Agreement

variable {σ τ δ : Type} [AgentStorage σ] [LawfulStorage σ] [Unobstructing σ] [AgentStorage τ] [LawfulStorage τ]
  [Unobstructing τ] [StructuralDbStore δ] {codec : Codec} {render : Content → String} {fs : AgentFs} {ctx : Context}
  {storage storage' : σ} {files files' : τ} {db db' : δ}

/-- Both are the same success, or neither is one. -/
def Alike (one two : Observation) : Prop := (one.ok = true ∨ two.ok = true) → one = two

theorem Told.Says.alike {told : Told} {one two : Observation} (first : told.Says one) (second : told.Says two) :
    Alike one two := by
  cases told with
  | some text => exact fun _ => first.trans second.symm
  | none =>
    rintro (succeeded | succeeded)
    · exact absurd (first.symm.trans succeeded) (by decide)
    · exact absurd (second.symm.trans succeeded) (by decide)

/-- Through any steps that both can take, the model is told the same on either host, and
what it has noted, recorded and put out is the same. -/
theorem hosts_agree (attached : Attached fs) {steps : List HostStep}
    (shared : ∀ step ∈ steps, Shared ctx.input.mandate.tools step)
    (same : papersOf fs storage = papersOf (.attach ctx.input.fsHandle.storagePrefix) files)
    (unblocked : Unblocked fs storage) (unblocked' : Unblocked (.attach ctx.input.fsHandle.storagePrefix) files)
    {told told' : List Observation} (inProcess : (steppedInProcess render fs).run storage steps = some (storage', told))
    (byWorker : (steppedByWorker codec render ctx).run (files, db) steps = some ((files', db'), told')) :
    List.Forall₂ Alike told told' ∧ papersOf fs storage' = papersOf (.attach ctx.input.fsHandle.storagePrefix) files' := by
  induction steps generalizing storage files db told told' with
  | nil =>
    cases inProcess
    cases byWorker
    exact ⟨.nil, same⟩
  | cons step steps ih =>
    obtain ⟨here, others⟩ := List.forall_mem_cons.mp shared
    obtain ⟨middle, _, _, stepped, continued, rfl⟩ := (steppedInProcess render fs).run_cons.mp inProcess
    obtain ⟨⟨middle', rows⟩, _, _, stepped', continued', rfl⟩ := (steppedByWorker codec render ctx).run_cons.mp byWorker
    obtain ⟨⟨observation, _⟩, took, shape⟩ := Option.map_eq_some_iff.mp stepped
    cases shape
    obtain ⟨⟨observation', _, _⟩, took', shape⟩ := Option.map_eq_some_iff.mp stepped'
    cases shape
    have first := inProcess_acted attached unblocked here took
    have second := worker_acted unblocked' here took'
    have next : papersOf fs middle = papersOf (.attach ctx.input.fsHandle.storagePrefix) middle' := by
      rw [first.papers, second.papers, same]
    obtain ⟨rest, final⟩ := ih others next first.unblocked second.unblocked continued continued'
    exact ⟨.cons (first.told.alike (same ▸ second.told)) rest, final⟩

omit [Unobstructing σ] in
theorem papersOf_bare (fs : AgentFs) {storage : σ} (bare : ∀ key, viewAt storage key = none) :
    papersOf fs storage = fun _ => none := by
  funext path
  unfold papersOf
  split
  · exact bare _
  · rfl

end Agreement

section Examples

private def lookTools : ToolRegistry :=
  ⟨(∅ : AList fun _ : String => Tool).insert "look" fun _ => .ok (.string "clear"),
    (∅ : AList fun _ : String => List String).insert "look" ["looking"]⟩

private def lookout : Context :=
  ⟨"lookout", { AgentInput.newForTest ⟨⟨7⟩⟩ ⟨⟨9⟩⟩ "lookout" with
    mandate := { Mandate.new "watch" ⟨0⟩ none with tools := ["looking"] } }, {}⟩

private def taking (step : UInt64) (action : Decision) : HostStep :=
  ⟨action, lookTools, fun _ => ⟨0⟩, fun _ _ => ⟨0⟩, 1, step, ""⟩

/-- A record is made, and a note of it that is read back; the output that cites nothing is refused. -/
private def watching : List HostStep :=
  [taking 1 (.callTools [⟨"look", .null, "sky", none⟩]), taking 2 (.rewriteFs [.writeFile "notes/a" "clear"]),
    taking 3 (.read "notes/a"), taking 4 (.writeOutput "clear" [])]

private def noteText : Content → String
  | .text body => body
  | _ => ""

private def blankRows : StructuralDb := ⟨[], [], [], [], ∅, []⟩

/-- In memory on the one host, and on disk on the other. -/
theorem hosts_agree_watching : ∃ storage files rows told told',
    (steppedInProcess noteText (.attach "lookout")).run (⟨∅⟩ : MemoryStorage) watching = some (storage, told) ∧
      (steppedByWorker (listedCodec [] []) noteText lookout).run ((⟨.empty⟩ : LocalStorage), blankRows) watching =
        some ((files, rows), told') ∧
      told.map (·.ok) = [true, true, true, false] ∧ List.Forall₂ Alike told told' ∧
      papersOf (.attach "lookout") storage = papersOf (.attach lookout.input.fsHandle.storagePrefix) files := by
  have here : ((steppedInProcess noteText (.attach "lookout")).run (⟨∅⟩ : MemoryStorage) watching).map
      (fun ended => ended.2.map (·.ok)) = some [true, true, true, false] := by
    decide +kernel
  have there : ((steppedByWorker (listedCodec [] []) noteText lookout).run ((⟨.empty⟩ : LocalStorage), blankRows)
      watching).isSome = true := by
    decide +kernel
  obtain ⟨⟨storage, told⟩, ran, answered⟩ := Option.map_eq_some_iff.mp here
  obtain ⟨⟨⟨files, rows⟩, told'⟩, ran'⟩ := Option.isSome_iff_exists.mp there
  refine ⟨storage, files, rows, told, told', ran, ran', answered, ?_⟩
  refine hosts_agree (attached_attach _) (fun step member => ?_) ?_ (fun _ _ => rfl) (fun observed _ => ?_) ran ran'
  · simp only [watching, List.mem_cons, List.not_mem_nil, or_false] at member
    rcases member with rfl | rfl | rfl | rfl
    · intro call member
      cases List.mem_singleton.mp member
      decide
    · trivial
    · intro rel cleaned
      rw [show AgentFs.cleanRelpath "notes/a" = .ok "notes/a" from by decide] at cleaned
      cases cleaned
      decide
    · trivial
  · have bare : ∀ key, viewAt (⟨.empty⟩ : LocalStorage) key = none := fun key => FileTree.read_empty (keyPath key)
    exact (papersOf_bare _ fun _ => rfl).trans (papersOf_bare _ bare).symm
  · refine (FileTree.lookup_empty _).trans (if_neg ?_)
    obtain ⟨name, -, -, parts⟩ := record_path observed
    rw [keyPath_key (attached_attach _), parts]
    exact List.append_ne_nil_of_right_ne_nil _ (List.cons_ne_nil _ _)

end Examples

end Coral.Proofs

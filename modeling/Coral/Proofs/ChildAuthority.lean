import Coral.Library.Forest
import Coral.Node.LocalWrites
import Coral.Proofs.ActionExecution
import Coral.Proofs.PersistConvergence

/-! Which agents the actions over children reach. The workflow takes both ids of a reference,
and the ids of the sources, as the model gives them. -/

namespace Coral.Temporal.Proofs
open Coral.Library

variable {session : Session} {step : UInt64} {action : Decision}

inductive OverChildren : Decision → Prop where
  | retireChild (childRef : AgentRef) (reason : String) : OverChildren (.retireChild childRef reason)
  | replaceChild (childRef : AgentRef) (newMandate : Mandate) : OverChildren (.replaceChild childRef newMandate)
  | reconcileChildren (sources : List ReconcileSource) (conflict : Option ConflictRecordIntent) :
      OverChildren (.reconcileChildren sources conflict)

/-- A decided action from the reply of its log entry on: what it has sent, and where it is. -/
inductive Execution (session : Session) (step : UInt64) (action : Decision) : Run → List Effect → Run → Prop where
  | logged {run next effects suggested executing}
      (waits : run.await = .logDecision session step action)
      (stepped : workflow.step run (.reply .logged suggested) = some (next, effects))
      (begins : next.await = .executeAction session (saturatingAdd step 1) action executing) :
      Execution session step action run effects next
  | goesOn {run last next event sent effects executing}
      (earlier : Execution session step action run sent last)
      (stepped : workflow.step last event = some (next, effects))
      (stays : next.await = .executeAction session (saturatingAdd step 1) action executing) :
      Execution session step action run (sent ++ effects) next

def WorkflowOf (db : StructuralDb) (workflowId : String) (agent : AgentId) : Prop :=
  ∃ row ∈ db.agentRows, row.id = agent ∧ agentWorkflowId row.graphId.toString row.id.toString = workflowId

def AgentOf (db : StructuralDb) (graphId : GraphId) (agent : AgentId) : Prop :=
  ∃ row ∈ db.agentRows, row.id = agent ∧ row.graphId = graphId

section Reading

variable {σ : Type} [AgentStorage σ]

/-- The sources are read in order, up to the first that cannot be. -/
def Reaches (codec : Codec) (graphId : GraphId) (files : σ) (sources : List ReconcileSource) (agent : AgentId) : Prop :=
  ∃ before source after, sources = before ++ source :: after ∧ source.childRef.agentId = agent ∧
    ∀ earlier ∈ before, ∃ body, readChildOutput codec graphId earlier files = .ok body

def outputOf (graphId : GraphId) (files : σ) (agent : AgentId) : Except FsError (Option Content) :=
  AgentFs.get files ((AgentFs.openForAgent graphId agent).key CANONICAL_OUTPUT)

variable {codec : Codec} {graphId : GraphId} {files other : σ}

theorem Reaches.cons {source : ReconcileSource} {sources : List ReconcileSource} {agent : AgentId} :
    Reaches codec graphId files (source :: sources) agent ↔ source.childRef.agentId = agent ∨
      (∃ body, readChildOutput codec graphId source files = .ok body) ∧ Reaches codec graphId files sources agent := by
  constructor
  · intro ⟨before, found, after, split, names, readable⟩
    cases before with
    | nil =>
      cases split
      exact .inl names
    | cons first before =>
      cases split
      exact .inr ⟨readable _ List.mem_cons_self, before, found, after, rfl, names,
        fun earlier member => readable earlier (List.mem_cons_of_mem _ member)⟩
  · intro reads
    rcases reads with names | ⟨readable, before, found, after, rfl, names, earlier⟩
    · exact ⟨[], source, sources, rfl, names, nofun⟩
    · refine ⟨source :: before, found, after, rfl, names, fun other member => ?_⟩
      rcases List.mem_cons.mp member with rfl | later
      · exact readable
      · exact earlier other later

/-- Nothing but the outputs of the agents that are read decides what is read. -/
theorem readChildOutputs_reaches {sources : List ReconcileSource}
    (same : ∀ agent, Reaches codec graphId files sources agent → outputOf graphId other agent = outputOf graphId files agent) :
    readChildOutputs codec graphId other sources = readChildOutputs codec graphId files sources := by
  induction sources with
  | nil => rfl
  | cons source sources ih =>
    have here : readChildOutput codec graphId source other = readChildOutput codec graphId source files := by
      have output := same source.childRef.agentId (Reaches.cons.mpr (.inl rfl))
      unfold outputOf at output
      simp only [readChildOutput, output]
    unfold readChildOutputs
    rw [here]
    cases readable : readChildOutput codec graphId source files with
    | error error => rfl
    | ok body =>
      rw [ih fun agent reads => same agent (Reaches.cons.mpr (.inr ⟨⟨body, readable⟩, reads⟩))]

end Reading

def handlesAfter (before : List AgentRef) : Answer → List AgentRef
  | .asks childHandles _ | .observes childHandles _ => childHandles
  | .fails => before

section Authority

variable {σ : Type} [AgentStorage σ]

/-- The action signals and reads descendants of its agent alone, and the handles that it
removes are those of the agent that it has signalled. -/
structure Authority (db : StructuralDb) (codec : Codec) (files : σ) (session : Session) (step : UInt64)
    (action : Decision) (run : Run) : Prop where
  signals : ∀ {sent last}, Execution session step action run sent last → ∀ workflowId signal,
    .signalWorkflow workflowId signal ∈ sent → ∀ agent, WorkflowOf db workflowId agent →
      Descends db.edges run.input.agentId agent
  reads : ∀ {sent last}, Execution session step action run sent last → ∀ graphId parent sources conflict,
    .activity (.reconcileChildren graphId parent sources conflict) ∈ sent → ∀ agent, AgentOf db graphId agent →
      Reaches codec graphId files sources agent → Descends db.edges run.input.agentId agent
  removals : ∀ {sent last}, Execution session step action run sent last → ∀ executing reply answer,
    last.await = .executeAction session (saturatingAdd step 1) action executing →
    last.answer executing reply = some answer → ∀ handle ∈ last.state.childHandles,
    handle ∉ handlesAfter last.state.childHandles answer → ∃ signal,
      .signalWorkflow (agentWorkflowId run.input.graphId.toString handle.agentId.toString) signal ∈ sent

/-- What the decision itself must keep to. -/
def Authorized (db : StructuralDb) (codec : Codec) (files : σ) (run : Run) : Decision → Prop
  | .retireChild childRef _ | .replaceChild childRef _ =>
    (∀ agent, WorkflowOf db childRef.workflowId agent → Descends db.edges run.input.agentId agent) ∧
      (childRef.agentId ∈ run.state.childHandles.map (·.agentId) →
        childRef.workflowId = agentWorkflowId run.input.graphId.toString childRef.agentId.toString)
  | .reconcileChildren sources _ => ∀ agent, AgentOf db run.input.graphId agent →
    Reaches codec run.input.graphId files sources agent → Descends db.edges run.input.agentId agent
  | _ => True

end Authority

/-- Neither a signal nor a read of another agent's files. -/
def Inward (effect : Effect) : Prop :=
  (∀ workflowId signal, effect ≠ .signalWorkflow workflowId signal) ∧
    ∀ graphId parent sources conflict, effect ≠ .activity (.reconcileChildren graphId parent sources conflict)

/-- Only a retirement takes handles away: those with the id in its reference. -/
theorem answer_keeps {run : Run} {executing : Executing} {reply : Reply} {answer : Answer} {handle : AgentRef}
    (answered : run.answer executing reply = some answer) (held : handle ∈ run.state.childHandles) :
    handle ∈ handlesAfter run.state.childHandles answer ∨
      ∃ childRef replacement, executing = .signalRetire childRef replacement ∧ handle.agentId = childRef.agentId := by
  unfold Context.answer at answered
  split at answered
  case h_11 childRef replacement =>
    have filtered : handlesAfter run.state.childHandles answer =
        run.state.childHandles.filter (·.agentId != childRef.agentId) := by
      cases replacement <;> cases answered <;> rfl
    by_cases same : handle.agentId = childRef.agentId
    · exact .inr ⟨childRef, replacement, rfl, same⟩
    · rw [filtered]
      exact .inl (List.mem_filter.mpr ⟨held, bne_iff_ne.mpr same⟩)
  all_goals
    try split at answered
    all_goals
      cases answered <;> first
        | exact .inl held
        | exact .inl (List.mem_append_left _ held)

/-- Past its first request an action sends nothing to another agent, unless it is an output
that has been persisted. -/
theorem asks_quiet {run : Run} {executing then_ : Executing} {reply : Reply} {childHandles : List AgentRef}
    {effects : List Effect} (answered : run.answer executing reply = some (.asks childHandles (then_, effects)))
    (silent : executing ≠ .persistOutput) :
    (∀ effect ∈ effects, Inward effect) ∧ then_ ≠ .persistOutput ∧ ∀ childRef replacement,
      then_ ≠ .signalRetire childRef replacement := by
  unfold Context.answer at answered
  split at answered
  case h_2 => exact (silent rfl).elim
  all_goals
    try split at answered
    all_goals
      cases answered
      try
        refine ⟨fun effect member => ?_, nofun, nofun⟩
        rw [List.mem_singleton.mp member]
        exact ⟨nofun, nofun⟩

section Execution

variable {run last : Run} {sent effects : List Effect} {first : Executing}

theorem step_logged (waits : run.await = .logDecision session step action) (suggested : Bool) :
    workflow.step run (.reply .logged suggested) = some (run.toContext.afterLog session step action) := by
  change run.resume suggested run.await .logged = _
  rw [waits]
  rfl

theorem afterLog_begins {ctx : Context} (running : action.idleAfter = Option.none)
    (begins : ctx.executeAction action = some (first, effects)) : ctx.afterLog session step action =
      (ctx.awaiting (.executeAction session (saturatingAdd step 1) action first), effects) := by
  unfold Context.afterLog
  rw [running]
  simp only [begins]

theorem Execution.begin (waits : run.await = .logDecision session step action) (running : action.idleAfter = Option.none)
    (begins : run.executeAction action = some (first, effects)) :
    Execution session step action run effects
      (run.awaiting (.executeAction session (saturatingAdd step 1) action first)) :=
  .logged waits ((step_logged waits false).trans (congrArg some (afterLog_begins running begins))) rfl

/-- What an action sends to other agents it sends at once, and its first request is the only
one that may take handles away. -/
theorem Execution.spec (execution : Execution session step action run sent last)
    (running : action.idleAfter = Option.none) (begins : run.executeAction action = some (first, effects))
    (silent : first ≠ .persistOutput) :
    (∀ effect ∈ sent, effect ∈ effects ∨ Inward effect) ∧ (∀ effect ∈ effects, effect ∈ sent) ∧
      ∃ now, last.await = .executeAction session (saturatingAdd step 1) action now ∧ now ≠ .persistOutput ∧
        ((now = first ∧ last.state.childHandles = run.state.childHandles) ∨
          ∀ childRef replacement, now ≠ .signalRetire childRef replacement) := by
  induction execution with
  | logged waits stepped _ =>
    rw [step_logged waits, afterLog_begins running begins] at stepped
    cases stepped
    exact ⟨fun _ => .inl, fun _ => id, first, rfl, silent, .inl ⟨rfl, rfl⟩⟩
  | goesOn earlier stepped stays ih =>
    obtain ⟨before, all, now, waits, quiet, from_⟩ := ih
    rcases step_executing waits stepped stays with ⟨signal, rfl, rfl, rfl, rfl⟩ | ⟨reply, suggested, childHandles, rfl,
      answered, rfl⟩
    · rw [List.append_nil]
      refine ⟨before, all, _, stays, quiet, from_.imp_left fun ⟨same, handles⟩ => ⟨same, ?_⟩⟩
      cases signal <;> exact handles
    · obtain ⟨later, other, unretiring⟩ := asks_quiet answered quiet
      refine ⟨fun effect member => ?_, fun effect member => List.mem_append_left _ (all effect member), _, rfl, other,
        .inr unretiring⟩
      rcases List.mem_append.mp member with earlier | among
      · exact before effect earlier
      · exact .inr (later effect among)

end Execution

section Decisions

variable {σ : Type} [AgentStorage σ] {db : StructuralDb} {codec : Codec} {files : σ} {run : Run}

theorem signalRetire_answer (ctx : Context) (childRef : AgentRef) (replacement : Option (String × Mandate)) :
    ∃ answer, ctx.answer (.signalRetire childRef replacement) .signalSent = some answer ∧
      handlesAfter ctx.state.childHandles answer = ctx.state.childHandles.filter (·.agentId != childRef.agentId) := by
  cases replacement with
  | none => exact ⟨_, rfl, rfl⟩
  | some replacement => exact ⟨_, rfl, rfl⟩

theorem authority_retiring {childRef : AgentRef} {reason : String} {replacement : Option (String × Mandate)}
    (waits : run.await = .logDecision session step action) (running : action.idleAfter = none)
    (begins : run.executeAction action = some (Context.retireChild childRef reason replacement)) :
    Authority db codec files session step action run ↔
      (∀ agent, WorkflowOf db childRef.workflowId agent → Descends db.edges run.input.agentId agent) ∧
        (childRef.agentId ∈ run.state.childHandles.map (·.agentId) →
          childRef.workflowId = agentWorkflowId run.input.graphId.toString childRef.agentId.toString) := by
  have signalled : ∀ {workflowId signal}, Effect.signalWorkflow workflowId signal ∈
      [Effect.signalWorkflow childRef.workflowId (.retire reason)] → workflowId = childRef.workflowId := by
    intro workflowId signal member
    cases List.mem_singleton.mp member
    rfl
  constructor
  · intro authority
    have execution := Execution.begin waits running begins
    refine ⟨fun agent named => authority.signals execution _ _ (List.mem_singleton_self _) agent named, ?_⟩
    intro listed
    obtain ⟨handle, held, same⟩ := List.mem_map.mp listed
    obtain ⟨answer, answered, after⟩ := signalRetire_answer run.toContext childRef replacement
    obtain ⟨signal, member⟩ := authority.removals execution _ _ answer rfl answered handle held (by
      change handle ∉ handlesAfter run.state.childHandles answer
      rw [after, List.mem_filter]
      exact fun kept => bne_iff_ne.mp kept.2 same)
    rw [← signalled member, same]
  · intro ⟨subtree, agrees⟩
    constructor
    · intro sent last execution workflowId signal member agent named
      obtain ⟨only, -, -⟩ := execution.spec running begins nofun
      rcases only _ member with first | inward
      · rw [signalled first] at named
        exact subtree agent named
      · exact (inward.1 _ _ rfl).elim
    · intro sent last execution graphId parent sources conflict member
      obtain ⟨only, -, -⟩ := execution.spec running begins nofun
      rcases only _ member with first | inward
      · cases List.mem_singleton.mp first
      · exact (inward.2 _ _ _ _ rfl).elim
    · intro sent last execution executing reply answer waiting answered handle held gone
      obtain ⟨-, all, now, here, -, stage⟩ := execution.spec running begins nofun
      obtain ⟨other, next, rfl, same⟩ := (answer_keeps answered held).resolve_left gone
      cases here.symm.trans waiting
      rcases stage with ⟨first, handles⟩ | unretiring
      · cases first
        rw [handles] at held
        rw [same, ← agrees (List.mem_map.mpr ⟨handle, held, same⟩)]
        exact ⟨_, all _ (List.mem_singleton_self _)⟩
      · exact (unretiring other next rfl).elim

theorem authority_reconciling {sources : List ReconcileSource} {conflict : Option ConflictRecordIntent}
    (waits : run.await = .logDecision session step (.reconcileChildren sources conflict)) :
    Authority db codec files session step (.reconcileChildren sources conflict) run ↔
      ∀ agent, AgentOf db run.input.graphId agent → Reaches codec run.input.graphId files sources agent →
        Descends db.edges run.input.agentId agent := by
  have begins : run.executeAction (.reconcileChildren sources conflict) = some (.reconcileChildren sources.length,
      [.activity (.reconcileChildren run.input.graphId run.input.agentId sources conflict)]) := rfl
  constructor
  · intro authority
    exact authority.reads (Execution.begin waits rfl begins) _ _ _ _ (List.mem_singleton_self _)
  · intro subtree
    constructor
    · intro sent last execution workflowId signal member
      obtain ⟨only, -, -⟩ := execution.spec rfl begins nofun
      rcases only _ member with first | inward
      · cases List.mem_singleton.mp first
      · exact (inward.1 _ _ rfl).elim
    · intro sent last execution graphId parent others dispute member
      obtain ⟨only, -, -⟩ := execution.spec rfl begins nofun
      rcases only _ member with first | inward
      · cases List.mem_singleton.mp first
        exact subtree
      · exact (inward.2 _ _ _ _ rfl).elim
    · intro sent last execution executing reply answer waiting answered handle held gone
      obtain ⟨-, -, now, here, -, stage⟩ := execution.spec rfl begins nofun
      obtain ⟨other, next, rfl, -⟩ := (answer_keeps answered held).resolve_left gone
      cases here.symm.trans waiting
      rcases stage with ⟨first, -⟩ | unretiring
      · cases first
      · exact (unretiring other next rfl).elim

/-- No reference is checked against the edges: an action keeps to the children of its agent
exactly when the decision does. -/
theorem authority_iff (db : StructuralDb) (codec : Codec) (files : σ) (session : Session) (step : UInt64) (run : Run)
    {action : Decision} (governs : OverChildren action) (waits : run.await = .logDecision session step action) :
    Authority db codec files session step action run ↔ Authorized db codec files run action := by
  cases governs with
  | retireChild childRef reason => exact authority_retiring waits rfl rfl
  | replaceChild childRef newMandate => exact authority_retiring waits rfl rfl
  | reconcileChildren sources conflict => exact authority_reconciling waits

end Decisions

section Examples

private def bureau : GraphId := ⟨⟨0⟩⟩

private def redactor : AgentId := ⟨⟨1⟩⟩

private def essayist : AgentId := ⟨⟨2⟩⟩

private def critic : AgentId := ⟨⟨3⟩⟩

/-- Two children of one agent. -/
private def siblings : StructuralDb where
  graphs := [⟨bureau, "bureau", .null⟩]
  agentRows := [⟨redactor, bureau, "redactor"⟩, ⟨essayist, bureau, "essayist"⟩, ⟨critic, bureau, "critic"⟩]
  edges := [(redactor, essayist), (redactor, critic)]
  tools := []
  fileIndex := ∅
  citations := []

private def deskOf (agent : AgentId) : String := agentWorkflowId bureau.toString agent.toString

private def waking : Session := .new ⟨.newNever "write" none, [], {}⟩

private def decidedBy (agent : AgentId) (childHandles : List AgentRef) (action : Decision) : Run where
  workflowId := deskOf agent
  input := buildRootInput bureau agent "agent" (.newNever "write" none) ⟨⟩
  state := { childHandles }
  await := .logDecision waking 0 action

private def sparse : Codec := Coral.Proofs.listedCodec [] []

private def noFiles : MemoryStorage := ⟨∅⟩

private theorem childless : ¬ Descends siblings.edges essayist critic := by
  intro path
  obtain ⟨⟨below, first⟩, -⟩ := path.edge
  simp [siblings, redactor, essayist, critic] at first

private def dismissal (workflowId : String) (agent : AgentId) : Decision :=
  .retireChild ⟨workflowId, agent⟩ "no longer needed"

private def survey (agent : AgentId) : Decision := .reconcileChildren [⟨⟨deskOf agent, agent⟩, ⟨""⟩⟩] none

theorem authority_iff_child : Authority siblings sparse noFiles waking 0 (dismissal (deskOf essayist) essayist)
    (decidedBy redactor [⟨deskOf essayist, essayist⟩] (dismissal (deskOf essayist) essayist)) := by
  apply (authority_iff siblings sparse noFiles waking 0 _ (.retireChild _ _) rfl).mpr
  have only : ∀ row ∈ siblings.agentRows, agentWorkflowId row.graphId.toString row.id.toString = deskOf essayist →
      row.id = essayist := by decide +kernel
  refine ⟨fun agent ⟨row, member, named, works⟩ => ?_, fun _ => rfl⟩
  rw [← named, only row member works]
  exact .single (by simp [siblings, decidedBy, buildRootInput])

/-- A child retires its sibling and reads its files, and a parent whose reference disagrees
with itself drops the handle of a child that it has not signalled. -/
theorem siblings_reached :
    (¬ Authority siblings sparse noFiles waking 0 (dismissal (deskOf critic) critic)
      (decidedBy essayist [] (dismissal (deskOf critic) critic))) ∧
    (¬ Authority siblings sparse noFiles waking 0 (survey critic) (decidedBy essayist [] (survey critic))) ∧
    ¬ Authority siblings sparse noFiles waking 0 (dismissal (deskOf essayist) critic)
      (decidedBy redactor [⟨deskOf essayist, essayist⟩, ⟨deskOf critic, critic⟩]
        (dismissal (deskOf essayist) critic)) := by
  have row : ⟨critic, bureau, "critic"⟩ ∈ siblings.agentRows := by simp [siblings]
  refine ⟨fun authority => ?_, fun authority => ?_, fun authority => ?_⟩
  · have authorized := (authority_retiring rfl rfl rfl).mp authority
    exact childless (authorized.1 critic ⟨_, row, rfl, rfl⟩)
  · have authorized := (authority_reconciling rfl).mp authority
    exact childless (authorized critic ⟨_, row, rfl, rfl⟩ (Reaches.cons.mpr (.inl rfl)))
  · have authorized := (authority_retiring rfl rfl rfl).mp authority
    have same : deskOf essayist = deskOf critic := authorized.2 (by simp [decidedBy])
    exact absurd same (by decide +kernel)

end Examples

end Coral.Temporal.Proofs

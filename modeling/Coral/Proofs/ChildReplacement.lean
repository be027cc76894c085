import Coral.Proofs.ActionExecution

/-! `ReplaceChild`: the old child is told to retire before the database has a say in what
takes its place. -/

namespace Coral.Temporal.Proofs
open Coral.Library

/-- A failure has touched neither the old child nor the handles; a success has swapped the
old child's handles for the new child's. -/
def AllOrNothing (before : List AgentRef) (childRef : AgentRef) (effects : List Effect) (after : List AgentRef)
    (observation : Observation) : Prop :=
  if observation.ok then
    ∃ child input, Effect.startChild child.workflowId input ∈ effects ∧ input.agentId = child.agentId ∧
      after = before.filter (·.agentId != childRef.agentId) ++ [child]
  else (∀ reason, Effect.signalWorkflow childRef.workflowId (.retire reason) ∉ effects) ∧ after = before

section Answers

variable {ctx : Context} {reply : Reply} {answer : Answer} {agentName : String}

theorem answer_signalRetire {childRef : AgentRef} {mandate : Mandate}
    (answered : ctx.answer (.signalRetire childRef (some (agentName, mandate))) reply = some answer) :
    answer = .asks (ctx.state.childHandles.filter (·.agentId != childRef.agentId)) (ctx.spawnChild agentName mandate) := by
  cases reply <;> cases answered
  rfl

theorem answer_registerChild {mandate : Mandate}
    (answered : ctx.answer (.registerChild agentName mandate) reply = some answer) :
    (∃ childAgentId, reply = .childRegistered (.registered childAgentId) ∧
      answer = .asks ctx.state.childHandles (.startChild agentName childAgentId,
        [.startChild (agentWorkflowId ctx.input.graphId.toString childAgentId.toString)
          (buildChildInput ctx.workflowId ctx.input.graphId childAgentId agentName mandate ctx.input.cfg)])) ∨
    (∃ tool observation, reply = .childRegistered (.rejectedUnknownTool tool) ∧
      answer = .observes ctx.state.childHandles (.failure observation)) ∨ answer = .fails := by
  cases reply with
  | childRegistered outcome =>
    cases outcome with
    | registered childAgentId => exact .inl ⟨childAgentId, rfl, (Option.some.inj answered).symm⟩
    | rejectedUnknownTool tool => exact .inr (.inl ⟨tool, _, rfl, (Option.some.inj answered).symm⟩)
  | failed => exact .inr (.inr (Option.some.inj answered).symm)
  | _ => cases answered

theorem answer_startChild {childAgentId : AgentId}
    (answered : ctx.answer (.startChild agentName childAgentId) reply = some answer) :
    answer = .observes (ctx.state.childHandles ++
        [⟨agentWorkflowId ctx.input.graphId.toString childAgentId.toString, childAgentId⟩])
      (.success ("spawned child " ++ agentName)) ∨ answer = .fails := by
  cases reply with
  | childStarted => exact .inl (Option.some.inj answered).symm
  | failed => exact .inr (Option.some.inj answered).symm
  | _ => cases answered

end Answers

section Phases

variable {db : StructuralDb} {session : Session} {step : UInt64} {action : Decision} {run : Run}
  {effects : List Effect} {childHandles : List AgentRef} {observation : Observation} {agentName : String}

/-- The last phase: the child that has been asked for starts. -/
theorem startChild_executes {childAgentId : AgentId}
    (executes : Executes db session step action run effects childHandles observation)
    (waits : run.await = .executeAction session step action (.startChild agentName childAgentId)) :
    observation.ok = true ∧ childHandles = run.state.childHandles ++
      [⟨agentWorkflowId run.input.graphId.toString childAgentId.toString, childAgentId⟩] := by
  induction executes with
  | observes suggested executing registers observed =>
    rw [waits] at executing
    cases executing
    rcases answer_startChild observed with same | same <;> cases same
    exact ⟨rfl, rfl⟩
  | goesOn executing registers stepped stays rest ih =>
    rw [waits] at executing
    cases executing
    rcases step_executing waits stepped stays with ⟨signal, rfl, rfl, rfl, rfl⟩ | ⟨reply, -, handles, -, asked, -⟩
    · obtain ⟨succeeds, handles⟩ := ih waits
      refine ⟨succeeds, ?_⟩
      rw [handles]
      exact congrArg (· ++ _) (receive_fixed _ signal).2.2.2.2
    · rcases answer_startChild asked with same | same <;> cases same

/-- The database refuses a tool that the graph does not define, or draws the child an id. -/
theorem registerChild_executes {mandate : Mandate}
    (executes : Executes db session step action run effects childHandles observation)
    (waits : run.await = .executeAction session step action (.registerChild agentName mandate))
    (defined : ∀ tool ∈ mandate.tools, tool ∈ db.listToolDefIdsForGraph run.input.graphId) :
    observation.ok = true ∧ ∃ child input, Effect.startChild child.workflowId input ∈ effects ∧
      input.agentId = child.agentId ∧ childHandles = run.state.childHandles ++ [child] := by
  induction executes with
  | observes suggested executing registers observed =>
    rw [waits] at executing
    cases executing
    rcases answer_registerChild observed with ⟨child, rfl, same⟩ | ⟨tool, failure, rfl, same⟩ | same <;> cases same
    obtain ⟨child, after, rejected⟩ := registers _ _ _ _ _ waits
    obtain ⟨unknown, member, missing⟩ := registerChildImpl_rejects.mp ⟨tool, after, rejected⟩
    exact (missing (defined unknown member)).elim
  | goesOn executing registers stepped stays rest ih =>
    rw [waits] at executing
    cases executing
    rcases step_executing waits stepped stays with ⟨signal, rfl, rfl, rfl, rfl⟩ | ⟨reply, suggested, handles, rfl, asked, rfl⟩
    · obtain ⟨succeeds, child, input, started, agent, handles⟩ := ih waits defined
      refine ⟨succeeds, child, input, started, agent, ?_⟩
      rw [handles]
      exact congrArg (· ++ _) (receive_fixed _ signal).2.2.2.2
    · rcases answer_registerChild asked with ⟨child, rfl, same⟩ | ⟨tool, failure, rfl, same⟩ | same <;> cases same
      obtain ⟨succeeds, same⟩ := startChild_executes rest rfl
      exact ⟨succeeds, _, _, List.mem_append_left _ (List.mem_singleton.mpr rfl), rfl, same⟩

/-- The first phase: the old child is told to retire, whatever comes of the new one. -/
theorem signalRetire_executes {childRef : AgentRef} {mandate : Mandate}
    (executes : Executes db session step action run effects childHandles observation)
    (waits : run.await = .executeAction session step action (.signalRetire childRef (some (agentName, mandate))))
    (defined : ∀ tool ∈ mandate.tools, tool ∈ db.listToolDefIdsForGraph run.input.graphId) :
    observation.ok = true ∧ ∃ child input, Effect.startChild child.workflowId input ∈ effects ∧
      input.agentId = child.agentId ∧
      childHandles = run.state.childHandles.filter (·.agentId != childRef.agentId) ++ [child] := by
  induction executes with
  | observes suggested executing registers observed =>
    rw [waits] at executing
    cases executing
    cases answer_signalRetire observed
  | goesOn executing registers stepped stays rest ih =>
    rw [waits] at executing
    cases executing
    rcases step_executing waits stepped stays with ⟨signal, rfl, rfl, rfl, rfl⟩ | ⟨reply, suggested, handles, rfl, asked, rfl⟩
    · obtain ⟨succeeds, child, input, started, agent, handles⟩ := ih waits defined
      refine ⟨succeeds, child, input, started, agent, ?_⟩
      rw [handles]
      exact congrArg (fun before => List.filter _ before ++ _) (receive_fixed _ signal).2.2.2.2
    · cases answer_signalRetire asked
      obtain ⟨succeeds, child, input, started, agent, handles⟩ := registerChild_executes rest rfl defined
      exact ⟨succeeds, child, input, List.mem_append_right _ started, agent, handles⟩

end Phases

section Replacement

variable (db : StructuralDb) (ctx : Context) (session : Session) (step : UInt64) (childRef : AgentRef)
  (newMandate : Mandate)

/-- The workflow as it begins to execute the replacement, with its first request. -/
def replacing : Run × List Effect := ctx.afterLog session step (.replaceChild childRef newMandate)

/-- A grant that the graph does not define is refused when the old child has been retired. -/
theorem replacement_refused {tool : String} (member : tool ∈ newMandate.tools)
    (missing : tool ∉ db.listToolDefIdsForGraph ctx.input.graphId) :
    ∃ effects content, Executes db session (saturatingAdd step 1) (.replaceChild childRef newMandate)
      (replacing ctx session step childRef newMandate).1 effects
      (ctx.state.childHandles.filter (·.agentId != childRef.agentId)) (.failure content) := by
  obtain ⟨refused, after, rejected⟩ := (@registerChildImpl_rejects db ctx.input.graphId ctx.input.agentId ⟨⟨0⟩⟩
    ("replacement-of-" ++ childRef.agentId.toString) newMandate.tools).mpr ⟨tool, member, missing⟩
  have first : workflow.step (replacing ctx session step childRef newMandate).1 (.reply .signalSent false) = some
      (((ctx.withChildren (ctx.state.childHandles.filter (·.agentId != childRef.agentId))).awaiting
        (.executeAction session (saturatingAdd step 1) (.replaceChild childRef newMandate)
          (.registerChild ("replacement-of-" ++ childRef.agentId.toString) newMandate))),
        (ctx.spawnChild ("replacement-of-" ++ childRef.agentId.toString) newMandate).2) := rfl
  have second : (ctx.withChildren (ctx.state.childHandles.filter (·.agentId != childRef.agentId))).answer
      (.registerChild ("replacement-of-" ++ childRef.agentId.toString) newMandate)
      (.childRegistered (.rejectedUnknownTool refused)) = some (.observes _ (.failure _)) := rfl
  have quiet : Registers db (replacing ctx session step childRef newMandate).1 (.reply .signalSent false) := trivial
  refine ⟨_, _, .goesOn rfl quiet first rfl (.observes false rfl ?_ second)⟩
  intro _ _ _ _ _ waits
  cases waits
  exact ⟨⟨⟨0⟩⟩, after, rejected⟩

/-- A replacement is all or nothing exactly when the graph defines every tool it grants. -/
theorem replaceChild_allOrNothing_iff :
    (∀ effects childHandles observation, Executes db session (saturatingAdd step 1) (.replaceChild childRef newMandate)
        (replacing ctx session step childRef newMandate).1 effects childHandles observation →
      AllOrNothing ctx.state.childHandles childRef
        ((replacing ctx session step childRef newMandate).2 ++ effects) childHandles observation) ↔
      ∀ tool ∈ newMandate.tools, tool ∈ db.listToolDefIdsForGraph ctx.input.graphId := by
  constructor
  · intro atomic tool member
    by_contra missing
    obtain ⟨effects, content, executes⟩ := replacement_refused db ctx session step childRef newMandate member missing
    obtain ⟨unsent, -⟩ := atomic _ _ _ executes
    exact unsent _ (List.mem_append_left _ (List.mem_singleton.mpr rfl))
  · intro defined effects childHandles observation executes
    obtain ⟨succeeds, child, input, started, agent, handles⟩ := signalRetire_executes executes rfl defined
    unfold AllOrNothing
    rw [if_pos succeeds]
    exact ⟨child, input, List.mem_append_right _ started, agent, handles⟩

/-- A parent that replaces its one child by an agent with a tool that the graph has not got. -/
def replacingParent : Context :=
  ⟨"graphs/g/agents/p", .newForTest ⟨⟨0⟩⟩ ⟨⟨1⟩⟩ "p", { childHandles := [⟨"graphs/g/agents/c", ⟨⟨2⟩⟩⟩] }⟩

def familyDb : StructuralDb :=
  ⟨[⟨⟨⟨0⟩⟩, "g", .null⟩], [⟨⟨⟨1⟩⟩, ⟨⟨0⟩⟩, "p"⟩, ⟨⟨⟨2⟩⟩, ⟨⟨0⟩⟩, "c"⟩], [(⟨⟨1⟩⟩, ⟨⟨2⟩⟩)], [], ∅, []⟩

theorem refused_replacement_retires :
    let childRef : AgentRef := ⟨"graphs/g/agents/c", ⟨⟨2⟩⟩⟩
    let newMandate : Mandate := { Mandate.new "watch" ⟨0⟩ none with tools := ["web"] }
    let session : Session := .new ⟨.new "" ⟨0⟩ none, [], {}⟩
    ∃ effects observation, Executes familyDb session (saturatingAdd 0 1)
        (.replaceChild childRef newMandate) (replacing replacingParent session 0 childRef newMandate).1 effects [] observation ∧
      observation.ok = false ∧
      .signalWorkflow "graphs/g/agents/c" (.retire ("replaced by replacement-of-" ++ childRef.agentId.toString)) ∈
        (replacing replacingParent session 0 childRef newMandate).2 ∧
      ¬ AllOrNothing replacingParent.state.childHandles childRef
        ((replacing replacingParent session 0 childRef newMandate).2 ++ effects) [] observation := by
  intro childRef newMandate session
  obtain ⟨effects, content, executes⟩ := replacement_refused familyDb replacingParent
    session 0 childRef newMandate (List.mem_singleton.mpr rfl) (by decide)
  refine ⟨effects, _, executes, rfl, List.mem_singleton.mpr rfl, ?_⟩
  rintro ⟨unsent, -⟩
  exact unsent _ (List.mem_append_left _ (List.mem_singleton.mpr rfl))

end Replacement

end Coral.Temporal.Proofs

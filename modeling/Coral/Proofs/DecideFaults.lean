import Coral.Node.Agent
import Coral.Proofs.WorkflowInvariant
import Coral.Temporal.Activities

/-! What an unparseable decision does to the two hosts. In-process it ends the cycle with
the agent unhealthy. On the workflow host it ends the workflow. -/

namespace Coral.Temporal.Proofs
open Coral.Library

/-- The conversation that failed attempts lead to. -/
inductive Asked (llm : LlmDecide) (complete : Nat → CompleteRequest → Except ModelError CompleteResponse)
    (model : Option String) : List Message → List DecisionParseError → List Message → List DecisionParseError → Prop
    where
  | now (messages errors) : Asked llm complete model messages errors messages errors
  | corrected {messages errors response error last failures}
      (answered : complete errors.length ⟨messages, model⟩ = .ok response)
      (unparsed : parseDecision llm.fromValue response.toolCalls = .error error)
      (later : Asked llm complete model (messages ++ corrective response.content error) (errors ++ [error]) last
        failures) :
      Asked llm complete model messages errors last failures

/-- One of the attempts of this decision is answered with a response that parses. -/
def Parsed (llm : LlmDecide) (session : Session) (answers : Answers) : Prop :=
  ∃ client model messages errors response decision,
    llm.registry.resolve session.seed.mandate.model = .ok (client, model) ∧
      Asked llm (answers client) model (llm.render session) [] messages errors ∧
      errors.length ≤ MAX_DECISION_RETRIES ∧ answers client errors.length ⟨messages, model⟩ = .ok response ∧
      parseDecision llm.fromValue response.toolCalls = .ok decision

/-- The model's name resolves, and its provider answers. -/
def Serving (llm : LlmDecide) (session : Session) (answers : Answers) : Prop :=
  ∃ client model, llm.registry.resolve session.seed.mandate.model = .ok (client, model) ∧
    ∀ attempt request, ∃ response, answers client attempt request = .ok response

section Attempts

variable {llm : LlmDecide} {complete : Nat → CompleteRequest → Except ModelError CompleteResponse}
  {model : Option String}

theorem asked_errors {messages last : List Message} {errors failures : List DecisionParseError}
    (asked : Asked llm complete model messages errors last failures) : errors.length ≤ failures.length := by
  induction asked with
  | now => exact Nat.le_refl _
  | corrected answered unparsed later ih =>
    rw [List.length_append] at ih
    exact Nat.le_trans (Nat.le_add_right _ _) ih

theorem attempts_parsed {left : Nat} {messages : List Message} {errors : List DecisionParseError}
    {decision : Decision} (decided : llm.attempts complete model left messages errors = .ok decision) :
    ∃ last failures response, Asked llm complete model messages errors last failures ∧
      failures.length < errors.length + left ∧ complete failures.length ⟨last, model⟩ = .ok response ∧
      parseDecision llm.fromValue response.toolCalls = .ok decision := by
  induction left generalizing messages errors with
  | zero => cases decided
  | succ left ih =>
    unfold LlmDecide.attempts at decided
    split at decided
    · cases decided
    · rename_i response answered
      split at decided
      · rename_i action parsed
        cases decided
        exact ⟨messages, errors, response, .now _ _, by omega, answered, parsed⟩
      · rename_i error unparsed
        obtain ⟨last, failures, final, asked, within, replied, parsed⟩ := ih decided
        refine ⟨last, failures, final, .corrected answered unparsed asked, ?_, replied, parsed⟩
        rw [List.length_append, List.length_singleton] at within
        omega

/-- A provider that answers leaves one way to fail: no attempt parses. -/
theorem attempts_unparsed {left : Nat} {messages : List Message} {errors : List DecisionParseError}
    (serving : ∀ attempt request, ∃ response, complete attempt request = .ok response) {failure : DecideError}
    (failed : llm.attempts complete model left messages errors = .error failure) :
    (∃ failures, failure = .parseFailed failures) ∧ ∀ last failures response decision,
      Asked llm complete model messages errors last failures → failures.length < errors.length + left →
      complete failures.length ⟨last, model⟩ = .ok response →
      parseDecision llm.fromValue response.toolCalls ≠ .ok decision := by
  induction left generalizing messages errors with
  | zero =>
    cases failed
    refine ⟨⟨errors, rfl⟩, ?_⟩
    intro last failures response decision asked within
    have := asked_errors asked
    omega
  | succ left ih =>
    unfold LlmDecide.attempts at failed
    split at failed
    · rename_i error refused
      obtain ⟨response, answered⟩ := serving errors.length ⟨messages, model⟩
      rw [refused] at answered
      cases answered
    · rename_i response answered
      split at failed
      · cases failed
      · rename_i error unparsed
        obtain ⟨kind, rest⟩ := ih failed
        refine ⟨kind, ?_⟩
        intro last failures final decision asked within replied parsed
        cases asked with
        | now =>
          rw [answered] at replied
          cases replied
          rw [unparsed] at parsed
          cases parsed
        | corrected again other later =>
          rw [answered] at again
          cases again
          rw [unparsed] at other
          cases other
          refine rest last failures final decision later ?_ replied parsed
          rw [List.length_append, List.length_singleton]
          omega

end Attempts

theorem decide_parsed_iff {llm : LlmDecide} {session : Session} {answers : Answers}
    (serving : Serving llm session answers) :
    (∃ decision, llm.decide session answers = .ok decision) ↔ Parsed llm session answers := by
  obtain ⟨client, model, resolved, answering⟩ := serving
  constructor
  · rintro ⟨decision, decided⟩
    simp only [LlmDecide.decide, resolved] at decided
    obtain ⟨last, failures, response, asked, within, replied, parsed⟩ := attempts_parsed decided
    refine ⟨client, model, last, failures, response, decision, resolved, asked, ?_, replied, parsed⟩
    rw [List.length_nil, Nat.zero_add] at within
    exact Nat.le_of_lt_succ within
  · rintro ⟨other, named, last, failures, response, decision, again, asked, within, replied, parsed⟩
    rw [resolved] at again
    cases again
    simp only [LlmDecide.decide, resolved]
    cases tried : llm.attempts (answers client) model (MAX_DECISION_RETRIES + 1) (llm.render session) [] with
    | ok action => exact ⟨action, rfl⟩
    | error failure =>
      refine ((attempts_unparsed answering tried).2 last failures response decision asked ?_ replied parsed).elim
      rw [List.length_nil, Nat.zero_add]
      exact Nat.lt_succ_of_le within

theorem decide_failure {llm : LlmDecide} {session : Session} {answers : Answers} {failure : DecideError}
    (serving : Serving llm session answers) (failed : llm.decide session answers = .error failure) :
    ∃ failures, failure = .parseFailed failures := by
  obtain ⟨client, model, resolved, answering⟩ := serving
  simp only [LlmDecide.decide, resolved] at failed
  exact (attempts_unparsed answering failed).1

private theorem loopTop_unclosed (ctx : Context) (resume : Option Session) (outcome : Outcome) :
    Effect.closed outcome ∉ (ctx.loopTop resume).2 := by
  intro member
  unfold Context.loopTop at member
  split at member
  · cases List.mem_singleton.mp member
  · obtain ⟨after, impossible⟩ := waitForTick_quiet ctx _ member
    cases impossible
  · split at member <;> cases List.mem_singleton.mp member

/-- A step closes a workflow that is on its way to retire, or one whose activity failed. -/
theorem step_closes {run next : Run} {event : Event} {effects : List Effect} {outcome : Outcome}
    (stepped : workflow.step run event = some (next, effects)) (closed : Effect.closed outcome ∈ effects) :
    (outcome = .failed ∧ ∃ suggested, event = .reply .failed suggested) ∨ ∃ reason,
      outcome = .completed (.retired reason) ∧
        (run.await = .persistRetirement reason ∨ run.await = .signalParent reason) := by
  obtain ⟨signal, -, -, -, rfl⟩ | ⟨-, advances⟩ := step_cases stepped
  · cases closed
  · obtain ⟨result, rfl, rfl, advanced⟩ := advances.result
    generalize run.await = await at advanced
    cases advanced with
    | left reason =>
      unfold Context.leaveGate at closed
      dsimp only at closed
      split at closed <;> simp [emit, Context.retire, Context.schedule] at closed
    | stayed childHandles other stays =>
      rcases stays.ends outcome closed with ⟨failed, rfl⟩ | retired
      · exact .inl ⟨failed, _, rfl⟩
      · exact .inr retired
    | carried childHandles session other cycle fits =>
      rcases List.mem_cons.mp closed with impossible | later
      · cases impossible
      · exact (loopTop_unclosed _ _ outcome later).elim
    | ended => exact (loopTop_unclosed _ _ outcome closed).elim
    | handedOver =>
      rcases List.mem_cons.mp closed with impossible | later
      · cases impossible
      · exact (loopTop_unclosed _ _ outcome later).elim

/-- The reason came with a `retire` signal, to this run or to one it continues. -/
def Requested (input : AgentInput) (events : List Event) (reason : String) : Prop :=
  .signal (.retire reason) ∈ events ∨ input.carryover.bind (·.retirementRequest) = some reason

/-- What may end a workflow: the `retire` signal, or the step cap. -/
def Warranted (input : AgentInput) (events : List Event) (reason : String) : Prop :=
  Requested input events reason ∨ ∃ tick, stepCapRetireReason tick input.mandate.stepCap = some reason

theorem Requested.later {input : AgentInput} {events : List Event} {reason : String}
    (requested : Requested input events reason) (event : Event) : Requested input (events ++ [event]) reason := by
  rcases requested with signal | carried
  · exact .inl (List.mem_append_left _ signal)
  · exact .inr carried

theorem Warranted.later {input : AgentInput} {events : List Event} {reason : String}
    (warranted : Warranted input events reason) (event : Event) : Warranted input (events ++ [event]) reason := by
  rcases warranted with requested | capped
  · exact .inl (requested.later event)
  · exact .inr capped

structure Accountable (input : AgentInput) (events : List Event) (run : Run) (effects : List Effect) : Prop where
  mandate : run.input.mandate = input.mandate
  request : ∀ reason, run.state.retirementRequest = some reason → Requested input events reason
  leaving : ∀ reason, run.await = .persistRetirement reason ∨ run.await = .signalParent reason →
    Warranted input events reason
  closed : ∀ reason, Effect.closed (.completed (.retired reason)) ∈ effects → Warranted input events reason

private theorem loopTop_request (ctx : Context) (resume : Option Session) (reason : String) :
    ((ctx.loopTop resume).1.state.retirementRequest = some reason → ctx.state.retirementRequest = some reason) ∧
      ((ctx.loopTop resume).1.await = .persistRetirement reason ∨ (ctx.loopTop resume).1.await = .signalParent reason →
        stepCapRetireReason ctx.state.tick ctx.input.mandate.stepCap = some reason ∨
          ctx.state.retirementRequest = some reason) := by
  unfold Context.loopTop
  split
  · rename_i other capped
    refine ⟨id, ?_⟩
    rintro (leaves | impossible)
    · cases leaves
      exact .inl capped
    · cases impossible
  · exact ⟨id, by rintro (impossible | impossible) <;> cases impossible⟩
  · split
    · rename_i other requested
      refine ⟨fun impossible => (by cases impossible), ?_⟩
      rintro (leaves | impossible)
      · cases leaves
        exact .inr requested
      · cases impossible
    · exact ⟨id, by rintro (impossible | impossible) <;> cases impossible⟩

private theorem begin_request (workflowId : String) (input : AgentInput) (reason : String) :
    ((begin workflowId input).1.state.retirementRequest = some reason →
        input.carryover.bind (·.retirementRequest) = some reason) ∧
      ((begin workflowId input).1.await = .persistRetirement reason ∨
          (begin workflowId input).1.await = .signalParent reason →
        (∃ tick, stepCapRetireReason tick input.mandate.stepCap = some reason) ∨
          input.carryover.bind (·.retirementRequest) = some reason) := by
  unfold begin
  cases input.carryover with
  | none =>
    obtain ⟨kept, leaves⟩ := loopTop_request ⟨workflowId, input, { isNever := input.mandate.isNever }⟩ none reason
    exact ⟨kept, fun leaving => (leaves leaving).imp_left fun capped => ⟨_, capped⟩⟩
  | some carryover =>
    obtain ⟨kept, leaves⟩ := loopTop_request ⟨workflowId, input,
      { ({} : AgentWorkflow).hydrateFromCarryover carryover with isNever := input.mandate.isNever }⟩
      carryover.inFlight reason
    exact ⟨kept, fun leaving => (leaves leaving).imp_left fun capped => ⟨_, capped⟩⟩

private theorem leaveGate_request (ctx : Context) (reason : String) :
    ctx.leaveGate.1.state.retirementRequest = none ∧
      (ctx.leaveGate.1.await = .persistRetirement reason ∨ ctx.leaveGate.1.await = .signalParent reason →
        ctx.state.retirementRequest = some reason) := by
  unfold Context.leaveGate
  dsimp only
  split
  · rename_i other requested
    refine ⟨rfl, ?_⟩
    rintro (leaves | impossible)
    · cases leaves
      exact requested
    · cases impossible
  · exact ⟨rfl, by rintro (impossible | impossible) <;> cases impossible⟩

theorem receive_request {s : AgentWorkflow} {signal : Signal} {reason : String}
    (asked : (s.receive signal).retirementRequest = some reason) :
    signal = .retire reason ∨ s.retirementRequest = some reason := by
  cases signal with
  | retire other => cases asked; exact .inl rfl
  | _ => exact .inr asked

theorem Accountable.step {input : AgentInput} {events : List Event} {run next : Run} {effects more : List Effect}
    {event : Event} (held : Accountable input events run effects)
    (stepped : workflow.step run event = some (next, more)) :
    Accountable input (events ++ [event]) next (effects ++ more) := by
  have mandate : next.input.mandate = input.mandate := (step_input stepped).1.mandate.trans held.mandate
  have closed : ∀ reason, Effect.closed (.completed (.retired reason)) ∈ effects ++ more →
      Warranted input (events ++ [event]) reason := by
    intro reason member
    rcases List.mem_append.mp member with earlier | now
    · exact (held.closed reason earlier).later event
    · obtain ⟨impossible, -⟩ | ⟨other, same, leaving⟩ := step_closes stepped now
      · cases impossible
      · cases same
        exact (held.leaving reason leaving).later event
  obtain ⟨signal, rfl, -, rfl, -⟩ | ⟨-, advances⟩ := step_cases stepped
  · refine ⟨mandate, ?_, fun reason leaving => (held.leaving reason leaving).later _, closed⟩
    intro reason asked
    rcases receive_request asked with rfl | before
    · exact .inl (List.mem_append_right _ List.mem_cons_self)
    · exact (held.request reason before).later _
  · obtain ⟨result, rfl, rfl, advanced⟩ := advances.result
    generalize waiting : run.await = await at advanced
    have asked := fun reason before => (held.request reason before).later event
    cases advanced with
    | left opened =>
      refine ⟨mandate, ?_, ?_, closed⟩
      · intro reason request
        rw [(leaveGate_request _ reason).1] at request
        cases request
      · exact fun reason leaving => .inl (asked reason ((leaveGate_request _ reason).2 leaving))
    | stayed childHandles other stays =>
      refine ⟨mandate, fun reason request => asked reason request, ?_, closed⟩
      intro reason leaving
      exact (held.leaving reason (.inl (waiting.trans (stays.leaving reason leaving)))).later _
    | carried childHandles session other cycle fits =>
      refine ⟨mandate, fun reason request => asked reason ((begin_request _ _ reason).1 request), ?_, closed⟩
      intro reason leaving
      rcases (begin_request _ _ reason).2 leaving with ⟨tick, capped⟩ | before
      · exact .inr ⟨tick, held.mandate ▸ capped⟩
      · exact .inl (asked reason before)
    | ended =>
      refine ⟨mandate, fun reason request => asked reason ((loopTop_request run.bumpTick none reason).1 request), ?_, closed⟩
      intro reason leaving
      rcases (loopTop_request run.bumpTick none reason).2 leaving with capped | before
      · exact .inr ⟨_, held.mandate ▸ capped⟩
      · exact .inl (asked reason before)
    | handedOver =>
      refine ⟨mandate, fun reason request => asked reason ((begin_request _ _ reason).1 request), ?_, closed⟩
      intro reason leaving
      rcases (begin_request _ _ reason).2 leaving with ⟨tick, capped⟩ | before
      · exact .inr ⟨tick, held.mandate ▸ capped⟩
      · exact .inl (asked reason before)

theorem lifetime_accountable {workflowId : String} {input : AgentInput} {events : List Event} {run : Run}
    {effects : List Effect} (ran : workflow.run (begin workflowId input).1 events = some (run, effects)) :
    Accountable input events run effects := by
  refine workflow.history_invariant (Accountable input) ?_
    (fun _ _ _ _ _ _ held stepped => held.step stepped) ran
  refine ⟨congrArg AgentInput.mandate (begin_input workflowId input).1, ?_, ?_, fun reason impossible => (by cases impossible)⟩
  · exact fun reason request => .inr ((begin_request _ _ reason).1 request)
  · intro reason leaving
    rcases (begin_request _ _ reason).2 leaving with capped | before
    · exact .inr capped
    · exact .inl (.inr before)

/-- The provider is healthy when a decision is asked for. -/
def Healthy (llm : LlmDecide) (run : Run) : HostEvent → Prop
  | .answered answers _ => ∀ session step, run.await = .decideStep session step → Serving llm session answers
  | .other _ => True

def Decides (llm : LlmDecide) (run : Run) : HostEvent → Prop
  | .answered answers _ => ∀ session step, run.await = .decideStep session step → Parsed llm session answers
  | .other _ => True

/-- The step closes the workflow, if it does, as retired or for another activity that failed. -/
def EndsWell (llm : LlmDecide) (run : Run) (event : HostEvent) : Prop :=
  ∀ next effects, (hosted llm).step run event = some (next, effects) → ∀ outcome, Effect.closed outcome ∈ effects →
    (∃ reason, outcome = .completed (.retired reason)) ∨ ∃ suggested, event = .other (.reply .failed suggested)

theorem answered_step {llm : LlmDecide} {run : Run} {session : Session} {step : UInt64} {answers : Answers}
    {suggested : Bool} (waiting : run.await = .decideStep session step) :
    (hosted llm).step run (.answered answers suggested) =
      match decideStep llm session answers with
      | .ok action => run.step (.reply (.decided action) suggested)
      | .error failure => if failure.retryable then some (run, []) else run.step (.reply .failed suggested) := by
  change hostStep llm run (.answered answers suggested) = _
  unfold hostStep
  cases decided : decideStep llm session answers with
  | ok action => simp only [waiting, decided]
  | error failure => simp only [waiting, decided]

theorem other_step {llm : LlmDecide} {run next : Run} {event : Event} {effects : List Effect}
    (stepped : (hosted llm).step run (.other event) = some (next, effects)) :
    workflow.step run event = some (next, effects) := by
  change hostStep llm run (.other event) = _ at stepped
  unfold hostStep at stepped
  dsimp only at stepped
  split at stepped
  · cases stepped
  · exact stepped

theorem endsWell_of_decides {llm : LlmDecide} {run : Run} {event : HostEvent} (healthy : Healthy llm run event)
    (decides : Decides llm run event) : EndsWell llm run event := by
  intro next effects stepped outcome closed
  cases event with
  | other event =>
    obtain ⟨-, suggested, rfl⟩ | ⟨reason, retired, -⟩ := step_closes (other_step stepped) closed
    · exact .inr ⟨suggested, rfl⟩
    · exact .inl ⟨reason, retired⟩
  | answered answers suggested =>
    cases waiting : run.await with
    | decideStep session step =>
      rw [answered_step waiting] at stepped
      obtain ⟨action, decided⟩ :=
        (decide_parsed_iff (healthy session step waiting)).mpr (decides session step waiting)
      simp only [decideStep, decided, Except.mapError] at stepped
      have moved : workflow.step run (.reply (.decided action) suggested) = some (next, effects) := stepped
      obtain ⟨-, again, impossible⟩ | ⟨reason, retired, -⟩ := step_closes moved closed
      · cases impossible
      · exact .inl ⟨reason, retired⟩
    | _ =>
      change hostStep llm run (.answered answers suggested) = _ at stepped
      unfold hostStep at stepped
      simp only [waiting] at stepped
      cases stepped

/-- All attempts failed to parse: the activity fails for good, and the workflow with it. -/
theorem unparsed_closes {llm : LlmDecide} {run : Run} {session : Session} {step : UInt64} {answers : Answers}
    (waiting : run.await = .decideStep session step) (serving : Serving llm session answers)
    (unparsed : ¬ Parsed llm session answers) (suggested : Bool) :
    (hosted llm).step run (.answered answers suggested) = some (run.close .failed) := by
  rw [answered_step waiting]
  cases decided : llm.decide session answers with
  | ok action => exact (unparsed ((decide_parsed_iff serving).mp ⟨action, decided⟩)).elim
  | error failure =>
    obtain ⟨failures, rfl⟩ := decide_failure serving decided
    have fails : run.step (.reply .failed suggested) = some (run.close .failed) := by
      unfold Run.step
      dsimp only
      rw [waiting]
      rfl
    simp only [decideStep, decided, Except.mapError, classifyDecideError]
    exact fails

theorem endsWell_iff {llm : LlmDecide} {run : Run} {event : HostEvent} (healthy : Healthy llm run event) :
    EndsWell llm run event ↔ Decides llm run event := by
  refine ⟨?_, endsWell_of_decides healthy⟩
  intro endsWell
  cases event with
  | other event => trivial
  | answered answers suggested =>
    intro session step waiting
    by_contra unparsed
    have closes := unparsed_closes waiting (healthy session step waiting) unparsed suggested
    rcases endsWell _ _ closes .failed List.mem_cons_self with ⟨reason, impossible⟩ | ⟨_, impossible⟩ <;>
      cases impossible

/-- Under a model, a workflow does nothing that it could not do without. -/
theorem hosted_run {llm : LlmDecide} {run final : Run} {events : List HostEvent} {effects : List Effect}
    (ran : (hosted llm).run run events = some (final, effects)) :
    ∃ inner, workflow.run run inner = some (final, effects) ∧
      ∀ signal, Event.signal signal ∈ inner → HostEvent.other (.signal signal) ∈ events := by
  induction events generalizing run effects with
  | nil =>
    obtain ⟨rfl, rfl⟩ : run = final ∧ [] = effects := by simpa using ran
    exact ⟨[], rfl, by simp⟩
  | cons event events ih =>
    obtain ⟨middle, first, rest, stepped, continued, rfl⟩ := (hosted llm).run_cons.mp ran
    obtain ⟨inner, later, signals⟩ := ih continued
    have signals : ∀ signal, Event.signal signal ∈ inner → HostEvent.other (.signal signal) ∈ event :: events :=
      fun signal member => List.mem_cons_of_mem _ (signals signal member)
    have takes : ∀ taken, workflow.step run taken = some (middle, first) →
        (∀ signal, taken = .signal signal → event = .other (.signal signal)) →
        ∃ inner, workflow.run run inner = some (final, first ++ rest) ∧
          ∀ signal, Event.signal signal ∈ inner → HostEvent.other (.signal signal) ∈ event :: events := by
      intro taken moved origin
      refine ⟨taken :: inner, workflow.run_cons.mpr ⟨middle, first, rest, moved, later, rfl⟩, ?_⟩
      intro signal member
      rcases List.mem_cons.mp member with same | member
      · rw [origin signal same.symm]
        exact List.mem_cons_self
      · exact signals signal member
    cases event with
    | other event => exact takes event (other_step stepped) fun signal same => congrArg HostEvent.other same
    | answered answers suggested =>
      have replies : ∀ reply, workflow.step run (.reply reply suggested) = some (middle, first) →
          ∃ inner, workflow.run run inner = some (final, first ++ rest) ∧ ∀ signal, Event.signal signal ∈ inner →
            HostEvent.other (.signal signal) ∈ HostEvent.answered answers suggested :: events :=
        fun reply moved => takes _ moved fun signal impossible => (by cases impossible)
      change hostStep llm run (.answered answers suggested) = some (middle, first) at stepped
      unfold hostStep at stepped
      dsimp only at stepped
      split at stepped
      · split at stepped
        · exact replies _ stepped
        · split at stepped
          · cases stepped
            exact ⟨inner, later, signals⟩
          · exact replies _ stepped
      · cases stepped

/-- A decision that no attempt could parse ends the in-process cycle, and only the cycle: the
agent is unhealthy, keeps its triggers, and comes to its next wake boundary or its step cap. -/
def EndsCycle (llm : LlmDecide) (agent : Agent) (event : AgentEvent) : Prop :=
  ∀ session answers clock failure next effects, agent.await = .decide session →
    event = .answered answers clock true → llm.decide session answers = .error failure →
    (inProcess llm).step agent event = some (next, effects) →
      (∃ since incident, next.health.state = .unhealthy since incident) ∧
        next.triggers = agent.triggers ∧
        ((∃ armed, next.await = .wake armed) ∨
          agent.stepCap ≤ agent.tick ∧ ∃ reason, next.await = .persistRetirement reason)

theorem endsCycle (llm : LlmDecide) (agent : Agent) (event : AgentEvent) : EndsCycle llm agent event := by
  rintro session answers clock failure next effects waiting rfl failed stepped
  change Agent.step llm agent (.answered answers clock true) = some (next, effects) at stepped
  simp only [Agent.step, waiting, failed, Option.some.injEq] at stepped
  unfold Agent.decideFailed Agent.endUnhealthy HealthTracker.transitionToUnhealthy at stepped
  simp only [if_true] at stepped
  unfold Agent.loopTop at stepped
  dsimp only at stepped
  split at stepped
  · rename_i capped
    cases stepped
    exact ⟨⟨_, _, rfl⟩, rfl, .inr ⟨capped, _, rfl⟩⟩
  · cases stepped
    exact ⟨⟨_, _, rfl⟩, rfl, .inl ⟨_, rfl⟩⟩

theorem along_endsCycle (llm : LlmDecide) (agent : Agent) (events : List AgentEvent) :
    (inProcess llm).Along (EndsCycle llm) agent events :=
  (inProcess llm).along_of_forall (endsCycle llm) agent events

/-- Both hosts survive unparseable decisions exactly when the workflow host meets none. -/
theorem unparseable_survived_iff (llm : LlmDecide) (cfg : Mandate) (health : HealthTracker)
    (triggers : List Trigger) (agentEvents : List AgentEvent) (workflowId : String) (input : AgentInput)
    (events : List HostEvent) (run : Run) (effects : List Effect)
    (ran : (hosted llm).run (begin workflowId input).1 events = some (run, effects))
    (healthy : (hosted llm).Along (Healthy llm) (begin workflowId input).1 events) :
    ((inProcess llm).Along (EndsCycle llm) (Agent.start cfg health triggers).1 agentEvents ∧
      (∀ reason, Effect.closed (.completed (.retired reason)) ∈ effects →
        HostEvent.other (.signal (.retire reason)) ∈ events ∨
          input.carryover.bind (·.retirementRequest) = some reason ∨
          ∃ tick, stepCapRetireReason tick input.mandate.stepCap = some reason) ∧
      (hosted llm).Along (EndsWell llm) (begin workflowId input).1 events) ↔
    (hosted llm).Along (Decides llm) (begin workflowId input).1 events := by
  have agree := (hosted llm).along_congr (fun run event healthy => endsWell_iff healthy) healthy
  refine ⟨fun survived => agree.mp survived.2.2, fun decides => ⟨along_endsCycle llm _ _, ?_, agree.mpr decides⟩⟩
  intro reason closed
  obtain ⟨inner, lived, signals⟩ := hosted_run ran
  rcases (lifetime_accountable lived).closed reason closed with (signal | carried) | capped
  · exact .inl (signals _ signal)
  · exact .inr (.inl carried)
  · exact .inr (.inr capped)

/-- Prose at first, and after the correction a call of `idle` when there is one. -/
def replies (corrected : List VendorToolCall) : Answers := fun _ attempt _ =>
  .ok (if attempt = 0 then ⟨[.text "Nothing to do."], []⟩ else ⟨[], corrected⟩)

def idleCall : VendorToolCall := ⟨"call-1", "idle", .object [("next_after", Json.nat 60000)]⟩

/-- Reads `Idle`, which is all that is needed here. -/
def idleLlm : LlmDecide where
  registry := .single
  render session := [⟨.user, [.text session.seed.mandate.text]⟩]
  fromValue
    | .object [("next_after", .number (.posInt millis)), ("type", .string "idle")] => .ok (.idle (.fromMillis millis))
    | _ => .error "unknown variant"

def promptedAgent : AgentInput := .newForTest ⟨⟨0⟩⟩ ⟨⟨1⟩⟩ "root"

def promptedRun (corrected : List VendorToolCall) : List HostEvent :=
  [.other .timerFired, .other (.reply (.seedBuilt ⟨promptedAgent.mandate, [.scheduledWake], {}⟩) false),
    .answered (replies corrected) false]

theorem promptedRun_healthy (corrected : List VendorToolCall) :
    (hosted idleLlm).Along (Healthy idleLlm) (begin "root" promptedAgent).1 (promptedRun corrected) := by
  refine ⟨trivial, trivial, ?_, ?_⟩
  · intro session step waiting
    cases waiting
    exact ⟨none, none, rfl, fun attempt _ => ⟨_, rfl⟩⟩
  · split <;> trivial

theorem unparseable_survived_iff_corrected : ∃ run effects,
    (hosted idleLlm).run (begin "root" promptedAgent).1 (promptedRun [idleCall]) = some (run, effects) ∧
      (((inProcess idleLlm).Along (EndsCycle idleLlm)
          (Agent.start promptedAgent.mandate ⟨{}, .healthy ⟨0⟩, 0, 0⟩ []).1 [.deadline] ∧
        (∀ reason, Effect.closed (.completed (.retired reason)) ∈ effects →
          HostEvent.other (.signal (.retire reason)) ∈ promptedRun [idleCall] ∨
            promptedAgent.carryover.bind (·.retirementRequest) = some reason ∨
            ∃ tick, stepCapRetireReason tick promptedAgent.mandate.stepCap = some reason) ∧
        (hosted idleLlm).Along (EndsWell idleLlm) (begin "root" promptedAgent).1 (promptedRun [idleCall])) ↔
      (hosted idleLlm).Along (Decides idleLlm) (begin "root" promptedAgent).1 (promptedRun [idleCall])) :=
  ⟨_, _, rfl, unparseable_survived_iff idleLlm _ _ _ _ "root" promptedAgent _ _ _ rfl (promptedRun_healthy _)⟩

/-- Two answers in prose: the workflow fails, though its provider was healthy, no activity but
the decision failed, and nobody asked it to retire. -/
theorem prose_fails_workflow : ∃ run effects,
    (hosted idleLlm).run (begin "root" promptedAgent).1 (promptedRun []) = some (run, effects) ∧
      (hosted idleLlm).Along (Healthy idleLlm) (begin "root" promptedAgent).1 (promptedRun []) ∧
      run.await = .closed .failed ∧ ∀ suggested, HostEvent.other (.reply .failed suggested) ∉ promptedRun [] :=
  ⟨_, _, rfl, promptedRun_healthy [], rfl, fun suggested impossible => by simp [promptedRun] at impossible⟩

end Coral.Temporal.Proofs

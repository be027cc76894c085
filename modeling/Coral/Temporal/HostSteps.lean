import Coral.Node.CallTools
import Coral.Temporal.FileActivities

/-! One step of a cycle on either host. The in-process host executes it on its own files. The
workflow host logs it and asks for activities, which a worker carries out one after another. -/

namespace Coral

/-- What the tool that a call names answers to it. -/
def ToolRegistry.answer (registry : ToolRegistry) (call : ToolCall) : Except String Json :=
  match registry.tools.lookup call.name with
  | none => .error ("no tool registered under name " ++ debugString call.name)
  | some tool => tool call.args

/-- What the calls of a batch are answered, by their places. -/
def ToolRegistry.answers (registry : ToolRegistry) (calls : List ToolCall) (place : Nat) : Except String Json :=
  match calls[place]? with
  | none => .error ""
  | some call => registry.answer call

namespace Temporal
open Coral.Library

/-- What the model has decided on, with the tools there are and the readings of the clocks. A
call is answered at the same time on either host. -/
structure HostStep where
  action : Decision
  registry : ToolRegistry
  called : Clock
  readings : Nat → Clock
  tick : UInt64
  step : UInt64
  decisionSummary : String

section HostStep

variable {σ δ : Type} [AgentStorage σ] [StructuralDbStore δ]

/-- The step on the in-process host, if it ends with an observation. -/
def HostStep.inProcess (render : Content → String) (fs : AgentFs) (step : HostStep) (storage : σ) :
    Option (Observation × σ) :=
  let tools (fs : AgentFs) (calls : List ToolCall) (storage : σ) : Except FsError StepOutcome × σ :=
    (executeCallTools fs step.registry (step.registry.answers calls) step.called (step.readings 0) calls storage).2
  match executeStep fs render tools (step.readings 0) step.action storage with
  | some (.ok outcome, after) => some (outcome.observation, after)
  | _ => none

/-- The clock of the activity for the call at this place: its first reading is the record's time. -/
def HostStep.callClock (step : HostStep) (place : Nat) : Clock
  | 0 => step.called place
  | reading + 1 => step.readings place reading

/-- The calls of a batch, from this place on. -/
def HostStep.serveTools (step : HostStep) : Nat → List Effect → σ → Option (List ToolCallOutcome × σ)
  | _, [], storage => some ([], storage)
  | place, .activity (.executeTool _ fsHandle _ allowedTools call) :: effects, storage =>
    match executeTool fsHandle (.ok step.registry) allowedTools call (step.callClock place) storage with
    | (.ok outcome, after) =>
      (step.serveTools (place + 1) effects after).map fun (outcomes, final) => (outcome :: outcomes, final)
    | (.error _, _) => none
  | _, _ :: _, _ => none

/-- What a worker reports of the activities that a step asks for, if all of them succeed. Those
that only the workflow host has are not among them. -/
def HostStep.serve (codec : Codec) (render : Content → String) (step : HostStep) (effects : List Effect) (storage : σ)
    (db : δ) : Option (Reply × σ × δ) :=
  match effects with
  | [.activity (.persistOutput _ fsHandle agentId body citations)] =>
    match persistOutputImpl codec (step.readings 0) agentId fsHandle.storagePrefix body citations storage db with
    | (result, after, rows) =>
      match persistOutcome result with
      | .ok output => some (.outputPersisted output.outputId output.observation, after, rows)
      | .error _ => none
  | [.activity (.applyFsOps fsHandle mandate ops)] =>
    match applyFsOpsImpl fsHandle mandate ops (step.readings 0) storage with
    | (.ok observation, after) => some (.fsOpsApplied observation, after, db)
    | (.error _, _) => none
  | [.activity (.readFs fsHandle op)] =>
    match readFsImpl render fsHandle op storage with
    | some (.ok observation) => some (.fsRead observation, storage, db)
    | _ => none
  | effects => (step.serveTools 0 effects storage).map fun (outcomes, after) => (.toolsExecuted outcomes, after, db)

/-- The observation that a reply makes of the action. A parent is told before it is pushed. -/
def Context.observed (ctx : Context) (executing : Executing) (reply : Reply) : Option Observation :=
  match ctx.answer executing reply with
  | some (.observes _ observation) => some observation
  | some (.asks _ (.signalParent observation, _)) => some observation
  | _ => none

/-- The step on the workflow host: the decision is logged, and what it asks for is carried out. -/
def HostStep.worker (codec : Codec) (render : Content → String) (ctx : Context) (step : HostStep) (storage : σ) (db : δ) :
    Option (Observation × σ × δ) :=
  let entry : DecisionLogEntry := ⟨step.tick, step.step, step.decisionSummary, step.readings 0 0⟩
  match appendDecisionLogImpl codec ctx.input.fsHandle entry storage, ctx.executeAction step.action with
  | (.ok (), logged), some (executing, effects) =>
    match step.serve codec render effects logged db with
    | some (reply, after, rows) => (ctx.observed executing reply).map fun observation => (observation, after, rows)
    | none => none
  | _, _ => none

/-- The in-process host, through any steps. -/
def steppedInProcess (render : Content → String) (fs : AgentFs) : Machine σ HostStep Observation :=
  ⟨fun storage step => (step.inProcess render fs storage).map fun (observation, after) => (after, [observation])⟩

/-- The workflow host and its worker, through any steps. -/
def steppedByWorker (codec : Codec) (render : Content → String) (ctx : Context) : Machine (σ × δ) HostStep Observation :=
  ⟨fun state step => (step.worker codec render ctx state.1 state.2).map fun (observation, after) => (after, [observation])⟩

end HostStep

end Temporal

end Coral

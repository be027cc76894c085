import Coral.Library.Machine
import Coral.Node.AgentCore
import Coral.Node.LlmDecide

/-! `Agent::run`, the in-process host, as a machine. It never ends by itself: what fails is
an observation, or ends the cycle with the agent unhealthy. -/

namespace Coral
open Coral.Library

/-- `class_priority`, in ascending order. -/
def Trigger.classPriority : Trigger → Nat
  | .humanOverride _ => 0
  | .external _ _ => 1
  | .childOutput _ _ _ | .childRetired _ _ _ => 2
  | .scheduledWake => 3

def drainOrdered (triggers : List Trigger) : List Trigger :=
  triggers.mergeSort fun first second => first.classPriority ≤ second.classPriority

inductive AgentOutcome where
  | retired (reason : String)
  | failed
  | panicked
deriving DecidableEq

inductive AgentAwait where
  | wake (armed : Bool)
  | buildSeed
  | decide (session : Session)
  | executeStep (session : Session) (action : Decision)
  | persistRetirement (reason : String)
  | closed (outcome : AgentOutcome)
deriving DecidableEq

structure Agent where
  cfg : Mandate
  triggers : List Trigger
  nextAfter : Duration
  health : HealthTracker
  tick : UInt64
  retryTrail : List Attempt
  await : AgentAwait
deriving DecidableEq

/-- `written` is whether the file that the step writes, if any, could be written. -/
inductive AgentEvent where
  | signal (trigger : Trigger)
  | nonempty
  | deadline
  | seedBuilt (seed : Option Seed)
  | answered (answers : Answers) (clock : Clock) (written : Bool)
  | executed (outcome : Option StepOutcome) (clock : Clock) (written : Bool)
  | retirementPersisted (written : Bool)

inductive AgentEffect where
  | buildSeed (triggers : List Trigger)
  | executeStep (action : Decision)
  | persistRetirement (reason : String)
  | closed (outcome : AgentOutcome)
deriving DecidableEq

/-- The variants that are not wired in-process. -/
def Decision.isTopology : Decision → Bool
  | .spawnChild _ _ | .reconcileChildren _ _ | .retireChild _ _ | .replaceChild _ _ => true
  | _ => false

namespace Agent

def stepCap (agent : Agent) : UInt64 := agent.cfg.stepCap.getD INTERIM_STEP_CAP

def close (agent : Agent) (outcome : AgentOutcome) : Agent × List AgentEffect :=
  ({ agent with await := .closed outcome }, [.closed outcome])

/-- The top of the outer loop. -/
def loopTop (agent : Agent) : Agent × List AgentEffect :=
  if agent.stepCap ≤ agent.tick then
    let reason := "step_cap (" ++ toString agent.stepCap.toNat ++ ") reached"
    ({ agent with await := .persistRetirement reason }, [.persistRetirement reason])
  else
    let tick := agent.tick + 1
    ({ agent with tick, await := .wake (armSelfWake agent.cfg.isNever (tick == 1)) }, [])

/-- `Agent::new`, up to the first wake boundary of `run`. -/
def start (cfg : Mandate) (health : HealthTracker) (triggers : List Trigger) : Agent × List AgentEffect :=
  loopTop ⟨cfg, triggers, cfg.idlePeriod.getD ⟨0⟩, health, 0, [], .buildSeed⟩

def beginCycle (agent : Agent) : Agent × List AgentEffect :=
  ({ agent with triggers := [], health := agent.health.beginTick, retryTrail := [], await := .buildSeed },
    [.buildSeed (drainOrdered agent.triggers)])

def tried (agent : Agent) (time : DateTime) (error : String) : Agent :=
  { agent with retryTrail := agent.retryTrail ++ [⟨.ofNat agent.retryTrail.length + 1, time, error⟩] }

/-- The incident is on file and the cycle ends, or `run` ends with the error. -/
def endUnhealthy (agent : Agent) (incident : HealthIncident) (written : Bool) : Agent × List AgentEffect :=
  match agent.health.transitionToUnhealthy incident written with
  | some health => loopTop { agent with health }
  | none => agent.close .failed

def decideFailed (agent : Agent) (error : String) (clock : Clock) (written : Bool) : Agent × List AgentEffect :=
  let agent := agent.tried (clock 0) error
  agent.endUnhealthy ⟨⟨.inference, .object [("error", .string error), ("stage", .string "decide")]⟩,
    agent.retryTrail, error, clock 1⟩ written

def decided (agent : Agent) (session : Session) (action : Decision) (clock : Clock) (written : Bool) :
    Agent × List AgentEffect :=
  match action.idleAfter with
  | some nextAfter =>
    match agent.health.markTickSuccess (clock 0) written with
    | some health => loopTop { agent with health, nextAfter }
    | none => agent.close .failed
  | none =>
    if action.isTopology then agent.close .panicked
    else ({ agent with await := .executeStep session action }, [.executeStep action])

/-- One slot for each failed call, until the budget is exhausted. -/
def recordToolFailures (clock : Clock) : List ToolFailure → Nat → Option FailureKind → Agent →
    Option FailureKind × Agent
  | [], _, exhausted, agent => (exhausted, agent)
  | failure :: failures, reading, exhausted, agent =>
    let agent := agent.tried (clock reading) failure.error
    match exhausted with
    | some kind => recordToolFailures clock failures (reading + 1) (some kind) agent
    | none =>
      let (exceeded, health) := agent.health.recordFailure .toolCall
      recordToolFailures clock failures (reading + 1) (if exceeded then some .toolCall else none) { agent with health }

def toolIncident (failures : List ToolFailure) (kind : FailureKind) (retryTrail : List Attempt) (time : DateTime) :
    HealthIncident :=
  let lastError := (failures.getLast?.map (·.error)).getD ""
  ⟨⟨kind, .object [("error", .string lastError),
      ("failures", .array (failures.map fun failure =>
        .object [("error", .string failure.error), ("tool", .string failure.tool)])),
      ("stage", .string "apply"), ("tool", .string ((failures.head?.map (·.tool)).getD ""))]⟩,
    retryTrail, lastError, time⟩

def recordCycleFailure (agent : Agent) (failure : StepFailure) (clock : Clock) : Option HealthIncident × Agent :=
  match failure with
  | .needsCorrection text =>
    let agent := agent.tried (clock 0) text
    let (exceeded, health) := agent.health.recordFailure .inference
    let agent := { agent with health }
    if exceeded then
      (some ⟨⟨.inference, .object [("error", .string text), ("stage", .string "apply")]⟩, agent.retryTrail, text,
        clock 1⟩, agent)
    else (none, agent)
  | .toolError failures =>
    match recordToolFailures clock failures 0 none agent with
    | (none, agent) => (none, agent)
    | (some kind, agent) => (some (toolIncident failures kind agent.retryTrail (clock failures.length)), agent)

def executed (agent : Agent) (session : Session) (action : Decision) (outcome : StepOutcome) (clock : Clock)
    (written : Bool) : Agent × List AgentEffect :=
  let (incident, agent) := match outcome.failure with
    | some failure => agent.recordCycleFailure failure clock
    | none => (none, agent)
  let session := session.push action outcome.observation
  match incident with
  | some incident => agent.endUnhealthy incident written
  | none =>
    if CYCLE_RUNAWAY_FUSE ≤ session.len then agent.loopTop
    else ({ agent with await := .decide session }, [])

/-- The queue's arm of the race is taken first, so the deadline counts only on an empty queue.
Its push and the drain that follows are one step, with no `await` between them: what a sender on
another thread sends meanwhile is taken to arrive after the drain. -/
def step (llm : LlmDecide) (agent : Agent) (event : AgentEvent) : Option (Agent × List AgentEffect) :=
  match agent.await, event with
  | .closed _, _ => none
  | _, .signal trigger => some ({ agent with triggers := agent.triggers ++ [trigger] }, [])
  | .wake _, .nonempty => if agent.triggers.isEmpty then none else some agent.beginCycle
  | .wake true, .deadline =>
    if agent.triggers.isEmpty then some { agent with triggers := [.scheduledWake] }.beginCycle else none
  | .buildSeed, .seedBuilt (some seed) => some ({ agent with await := .decide (.new seed) }, [])
  | .buildSeed, .seedBuilt none => some (agent.close .failed)
  | .decide session, .answered answers clock written =>
    match llm.decide session answers with
    | .error error => some (agent.decideFailed (error.toString session.seed.mandate.model) clock written)
    | .ok action => some (agent.decided session action clock written)
  | .executeStep session action, .executed (some outcome) clock written =>
    some (agent.executed session action outcome clock written)
  | .executeStep _ _, .executed none _ _ => some (agent.close .failed)
  | .persistRetirement reason, .retirementPersisted true => some (agent.close (.retired reason))
  | .persistRetirement _, .retirementPersisted false => some (agent.close .failed)
  | _, _ => none

end Agent

/-- The in-process host of an agent. -/
def inProcess (llm : LlmDecide) : Machine Agent AgentEvent AgentEffect := ⟨Agent.step llm⟩

end Coral

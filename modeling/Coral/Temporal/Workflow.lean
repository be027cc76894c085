import Coral.Library.Machine
import Coral.Temporal.State

/-! `AgentWorkflow::run` as a machine. The code between two `await` points is one step;
a signal may be received at any point between them. -/

namespace Coral.Temporal
open Coral.Library

inductive FsNavOp where
  | read (path : String)
  | list (path : String)
  | search (query : String) (path : Option String)
deriving DecidableEq

/-- The activities a workflow schedules, with their inputs. The decision log is given
the decision its one-line summary is rendered from. -/
inductive Activity where
  | buildSeed (mandate : Mandate) (fsHandle : FsHandle) (triggers : List Trigger) (humanOps : List HumanOp)
      (mandatePatches : List MandatePatch)
  | decideStep (session : Session)
  | appendDecisionLog (fsHandle : FsHandle) (tick step : UInt64) (decision : Decision)
  | executeTool (cfg : AgentConfig) (fsHandle : FsHandle) (graphId : GraphId) (allowedTools : List String)
      (call : ToolCall)
  | persistOutput (cfg : AgentConfig) (fsHandle : FsHandle) (agentId : AgentId) (body : String)
      (citations : List String)
  | applyFsOps (fsHandle : FsHandle) (mandate : Mandate) (ops : List FsOp)
  | readFs (fsHandle : FsHandle) (op : FsNavOp)
  | registerChild (parentGraphId : GraphId) (parentAgentId : AgentId) (childAgentName : String)
      (childTools : List String)
  | reconcileChildren (parentGraphId : GraphId) (parentAgentId : AgentId) (sources : List ReconcileSource)
      (conflict : Option ConflictRecordIntent)
  | commitTick (fsHandle : FsHandle) (tick : UInt64)
  | persistRetirement (fsHandle : FsHandle) (reason : String)
deriving DecidableEq

structure ToolCallFailure where
  tool : String
  args : Json
  error : String
deriving DecidableEq

inductive ToolCallOutcome where
  | success (evidencePath : String)
  | failure (failure : ToolCallFailure)
deriving DecidableEq

inductive RegisterChildOutcome where
  | registered (childAgentId : AgentId)
  | rejectedUnknownTool (tool : String)
deriving DecidableEq

inductive Outcome where
  | completed (result : AgentResult)
  | failed
deriving DecidableEq

/-- What a run waits for. In `executeAction` the session, the step index and the action
are the inner loop's locals. -/
inductive Executing where
  | executeTools (calls : Nat)
  | persistOutput
  | signalParent (observation : Observation)
  | applyFsOps
  | readFs
  | registerChild (agentName : String) (mandate : Mandate)
  | startChild (agentName : String) (childAgentId : AgentId)
  | reconcileChildren (sources : Nat)
  | signalRetire (childRef : AgentRef) (replacement : Option (String × Mandate))
deriving DecidableEq

inductive Await where
  | waitForTick (wakeAfter : Duration) (armed : Bool)
  | buildSeed
  | decideStep (session : Session) (step : UInt64)
  | logDecision (session : Session) (step : UInt64) (action : Decision)
  | executeAction (session : Session) (step : UInt64) (action : Decision) (executing : Executing)
  | commitTick
  | persistRetirement (reason : String)
  | signalParent (reason : String)
  | closed (outcome : Outcome)
deriving DecidableEq

/-- `drained`, `forceIdle` and `runawayFuse` are not commands to the server: the first marks
what `drain_buckets` took, the others are the two errors the loop logs. -/
inductive Effect where
  | startTimer (after : Duration)
  | drained (buckets : DrainedBuckets)
  | activity (activity : Activity)
  | startChild (workflowId : String) (input : AgentInput)
  | signalWorkflow (workflowId : String) (signal : Signal)
  | forceIdle (payloadBytes : Nat)
  | runawayFuse (steps : Nat)
  | continueAsNew (next : AgentInput)
  | closed (outcome : Outcome)
deriving DecidableEq

structure Context where
  workflowId : String
  input : AgentInput
  state : AgentWorkflow
deriving DecidableEq

structure Run extends Context where
  await : Await
deriving DecidableEq

def emit (effect : Effect) (rest : Run × List Effect) : Run × List Effect := (rest.1, effect :: rest.2)

namespace Context

def awaiting (ctx : Context) (await : Await) : Run := { ctx with await }

def schedule (ctx : Context) (activity : Activity) (await : Await) : Run × List Effect :=
  (ctx.awaiting await, [.activity activity])

def close (ctx : Context) (outcome : Outcome) : Run × List Effect :=
  (ctx.awaiting (.closed outcome), [.closed outcome])

def retire (ctx : Context) (reason : String) : Run × List Effect :=
  ctx.schedule (.persistRetirement ctx.input.fsHandle reason) (.persistRetirement reason)

def waitForTick (ctx : Context) : Run × List Effect :=
  let wakeAfter := ctx.state.nextWake.getD INITIAL_NEXT_WAKE
  let armed := armSelfWake ctx.input.mandate.isNever (ctx.state.tick == 0)
  ({ ctx with state := { ctx.state with parked := true } }.awaiting (.waitForTick wakeAfter armed),
    if armed then [.startTimer wakeAfter] else [])

def decideStep (ctx : Context) (session : Session) (step : UInt64) : Run × List Effect :=
  ctx.schedule (.decideStep session) (.decideStep session step)

/-- The top of the outer loop, with the session a mid-cycle continue-as-new carried. -/
def loopTop (ctx : Context) (resume : Option Session) : Run × List Effect :=
  match stepCapRetireReason ctx.state.tick ctx.input.mandate.stepCap, resume with
  | some reason, _ => ctx.retire reason
  | none, none => ctx.waitForTick
  | none, some session =>
    match ctx.state.retirementRequest with
    | some reason => { ctx with state := { ctx.state with retirementRequest := none } }.retire reason
    | none => ctx.decideStep session (.ofNat session.len)

end Context

/-- `AgentWorkflow::run` up to its first `await`. -/
def begin (workflowId : String) (input : AgentInput) : Run × List Effect :=
  let resume := input.carryover.bind (·.inFlight)
  let state := match input.carryover with
    | some carryover => ({} : AgentWorkflow).hydrateFromCarryover carryover
    | none => {}
  Context.loopTop ⟨workflowId, input, { state with isNever := input.mandate.isNever }⟩ resume

def buildChildInput (parentWorkflowId : String) (parentGraphId : GraphId) (childAgentId : AgentId)
    (childAgentName : String) (childMandate : Mandate) (inheritedCfg : AgentConfig) : AgentInput where
  cfg := inheritedCfg
  fsHandle := .forAgent parentGraphId childAgentId
  parentHandle := some ⟨parentWorkflowId, ParentRef.DEFAULT_SIGNAL⟩
  carryover := none
  mandate := childMandate
  graphId := parentGraphId
  agentId := childAgentId
  agentName := childAgentName

def buildRootInput (graphId : GraphId) (agentId : AgentId) (agentName : String) (mandate : Mandate)
    (cfg : AgentConfig) : AgentInput where
  cfg := cfg
  fsHandle := .forAgent graphId agentId
  parentHandle := none
  carryover := none
  mandate := mandate
  graphId := graphId
  agentId := agentId
  agentName := agentName

def formatCorrection (failures : List ToolCallFailure) : String :=
  let line (failure : ToolCallFailure) : String :=
    failure.error ++ " (args=" ++ String.ofList failure.args.render ++ ")"
  match failures with
  | [failure] => "call_tool " ++ debugString failure.tool ++ " failed: " ++ line failure
  | failures => failures.foldl (fun text failure => text ++ "\n- " ++ debugString failure.tool ++ ": " ++ line failure)
      (toString failures.length ++ " parallel call_tool(s) failed after exhausting retries:")

/-- The observation `dispatch_call_tools` makes of a finished batch. -/
def toolsObservation (outcomes : List ToolCallOutcome) : Observation :=
  let failures := outcomes.filterMap fun
    | .failure failure => some failure
    | .success _ => none
  let recorded := outcomes.filterMap fun
    | .success evidencePath => some evidencePath
    | .failure _ => none
  if failures.isEmpty then
    .success (toString recorded.length ++ " tool call(s) succeeded; cite this evidence: " ++
      String.intercalate ", " recorded)
  else .failure (formatCorrection failures)

namespace Context

def continueAsNew (ctx : Context) (next : AgentInput) : Run × List Effect :=
  emit (.continueAsNew next) (begin ctx.workflowId next)

/-- The wake gate opens: drain, then retire or build the seed of a new cycle. -/
def leaveGate (ctx : Context) : Run × List Effect :=
  let (drained, state) := drainBuckets { ctx.state with parked := false }
  let ctx := { ctx with state }
  match drained.retirement with
  | some reason => emit (.drained drained) (ctx.retire reason)
  | none =>
    let bundle := synthesizeScheduledWake drained
    emit (.drained drained) (ctx.schedule (.buildSeed ctx.input.mandate ctx.input.fsHandle bundle.triggers
      bundle.humanOps bundle.mandatePatches) .buildSeed)

def commitTick (ctx : Context) : Run × List Effect :=
  ctx.schedule (.commitTick ctx.input.fsHandle ctx.state.tick) .commitTick

def bumpTick (ctx : Context) : Context :=
  { ctx with state := { ctx.state with tick := saturatingAdd ctx.state.tick 1 } }

/-- After `commit_tick`: the next cycle, in this run or in a continued one. -/
def cycleBoundary (ctx : Context) (suggested : Bool) : Run × List Effect :=
  let ctx := ctx.bumpTick
  if suggested then
    ctx.continueAsNew { ctx.input with carryover := some ctx.state.encodeCarryover }
  else ctx.loopTop none

/-- The observation is pushed before continue-as-new is considered, so that the
continued run resumes after this step. -/
def afterExecute (ctx : Context) (session : Session) (step : UInt64) (action : Decision)
    (observation : Observation) (suggested : Bool) : Run × List Effect :=
  let session := session.push action observation
  if CYCLE_RUNAWAY_FUSE ≤ session.len then emit (.runawayFuse session.len) ctx.commitTick
  else if suggested then
    let candidate := midCycleInput ctx.input ctx.state.encodeCarryover session
    let payloadBytes := candidate.toJson.byteLength
    match carryDecision payloadBytes with
    | .forceIdle =>
      let ctx := { ctx with state := { ctx.state with nextWake := some INITIAL_NEXT_WAKE } }
      emit (.forceIdle payloadBytes) ctx.commitTick
    | .carry _ => ctx.continueAsNew candidate
  else ctx.decideStep session step

def spawnChild (ctx : Context) (childAgentName : String) (childMandate : Mandate) : Executing × List Effect :=
  (.registerChild childAgentName childMandate,
    [.activity (.registerChild ctx.input.graphId ctx.input.agentId childAgentName childMandate.tools)])

def retireChild (childRef : AgentRef) (reason : String) (replacement : Option (String × Mandate)) :
    Executing × List Effect :=
  (.signalRetire childRef replacement, [.signalWorkflow childRef.workflowId (.retire reason)])

/-- What `execute_action` asks for first. `Idle` ends the cycle before it comes here. -/
def executeAction (ctx : Context) : Decision → Option (Executing × List Effect)
  | .callTools calls => some (.executeTools calls.length, calls.map fun call =>
      .activity (.executeTool ctx.input.cfg ctx.input.fsHandle ctx.input.graphId ctx.input.mandate.tools call))
  | .writeOutput body citations => some (.persistOutput,
      [.activity (.persistOutput ctx.input.cfg ctx.input.fsHandle ctx.input.agentId body citations)])
  | .rewriteFs ops => some (.applyFsOps, [.activity (.applyFsOps ctx.input.fsHandle (.new "" ⟨0⟩ none) ops)])
  | .read path => some (.readFs, [.activity (.readFs ctx.input.fsHandle (.read path))])
  | .list path => some (.readFs, [.activity (.readFs ctx.input.fsHandle (.list path))])
  | .search query path => some (.readFs, [.activity (.readFs ctx.input.fsHandle (.search query path))])
  | .spawnChild agentName mandate => some (ctx.spawnChild agentName mandate)
  | .reconcileChildren sources conflict => some (.reconcileChildren sources.length,
      [.activity (.reconcileChildren ctx.input.graphId ctx.input.agentId sources conflict)])
  | .retireChild childRef reason => some (retireChild childRef reason none)
  | .replaceChild childRef newMandate =>
    let replacementName := "replacement-of-" ++ childRef.agentId.toString
    some (retireChild childRef ("replaced by " ++ replacementName) (some (replacementName, newMandate)))
  | .idle _ => none

/-- The inner loop after `log_decision`: `Idle` pins the cadence and ends the cycle. -/
def afterLog (ctx : Context) (session : Session) (step : UInt64) (action : Decision) : Run × List Effect :=
  match action.idleAfter with
  | some nextAfter => { ctx with state := { ctx.state with nextWake := some nextAfter } }.commitTick
  | none =>
    match ctx.executeAction action with
    | some (executing, effects) =>
      (ctx.awaiting (.executeAction session (saturatingAdd step 1) action executing), effects)
    | none => ctx.close .failed

end Context

/-- What an `await` resolves to. A signal to another workflow resolves to `signalSent`
whether or not it was delivered: failures are swallowed. -/
inductive Reply where
  | seedBuilt (seed : Seed)
  | decided (action : Decision)
  | logged
  | toolsExecuted (outcomes : List ToolCallOutcome)
  | outputPersisted (outputId : Option OutputId) (observation : Observation)
  | signalSent
  | fsOpsApplied (observation : Observation)
  | fsRead (observation : Observation)
  | childRegistered (outcome : RegisterChildOutcome)
  | childStarted
  | childrenReconciled (syntheticEvidence : List String)
  | reconcileFailed (failure : String)
  | committed
  | retirementPersisted
  | failed
deriving DecidableEq

/-- `suggested` is `continue_as_new_suggested` as the activation that brings the reply has it. -/
inductive Event where
  | signal (signal : Signal)
  | woken
  | timerFired
  | reply (reply : Reply) (suggested : Bool)
deriving DecidableEq

/-- What a reply makes of the action in execution: a further request, the observation of
the finished action, or an error. The child handles are as the reply leaves them. -/
inductive Answer where
  | asks (childHandles : List AgentRef) (request : Executing × List Effect)
  | observes (childHandles : List AgentRef) (observation : Observation)
  | fails

namespace Context

def answer (ctx : Context) : Executing → Reply → Option Answer
  | .executeTools calls, .toolsExecuted outcomes =>
    if outcomes.length = calls then some (.observes ctx.state.childHandles (toolsObservation outcomes)) else none
  | .persistOutput, .outputPersisted outputId observation =>
    match outputId, ctx.input.parentHandle with
    | some outputId, some parent =>
      let trigger := Trigger.childOutput ⟨ctx.workflowId, ctx.input.agentId⟩ ctx.input.agentName outputId
      some (.asks ctx.state.childHandles (.signalParent observation,
        [.signalWorkflow parent.workflowId (.externalSignal trigger)]))
    | _, _ => some (.observes ctx.state.childHandles observation)
  | .signalParent observation, .signalSent => some (.observes ctx.state.childHandles observation)
  | .applyFsOps, .fsOpsApplied observation => some (.observes ctx.state.childHandles observation)
  | .readFs, .fsRead observation => some (.observes ctx.state.childHandles observation)
  | .registerChild _ _, .childRegistered (.rejectedUnknownTool tool) =>
    some (.observes ctx.state.childHandles (.failure ("spawn rejected: tool " ++ debugString tool ++
      " is not defined in this graph; grant the child only tools this graph defines")))
  | .registerChild agentName mandate, .childRegistered (.registered childAgentId) =>
    let childWorkflowId := agentWorkflowId ctx.input.graphId.toString childAgentId.toString
    let childInput :=
      buildChildInput ctx.workflowId ctx.input.graphId childAgentId agentName mandate ctx.input.cfg
    some (.asks ctx.state.childHandles (.startChild agentName childAgentId,
      [.startChild childWorkflowId childInput]))
  | .startChild agentName childAgentId, .childStarted =>
    let child : AgentRef := ⟨agentWorkflowId ctx.input.graphId.toString childAgentId.toString, childAgentId⟩
    some (.observes (ctx.state.childHandles ++ [child]) (.success ("spawned child " ++ agentName)))
  | .reconcileChildren sources, .childrenReconciled syntheticEvidence =>
    some (.observes ctx.state.childHandles (.success ("reconciled " ++ toString sources ++
      " child source(s); cite this evidence: " ++ String.intercalate ", " syntheticEvidence)))
  | .reconcileChildren _, .reconcileFailed failure =>
    some (.observes ctx.state.childHandles (.failure ("reconcile: activity failed: " ++ failure)))
  | .signalRetire childRef replacement, .signalSent =>
    let childHandles := ctx.state.childHandles.filter (·.agentId != childRef.agentId)
    match replacement with
    | none => some (.observes childHandles (.success ("retired child " ++ childRef.agentId.toString)))
    | some (agentName, mandate) => some (.asks childHandles (ctx.spawnChild agentName mandate))
  | .executeTools _, .failed | .persistOutput, .failed | .applyFsOps, .failed | .readFs, .failed
  | .registerChild _ _, .failed | .startChild _ _, .failed => some .fails
  | _, _ => none

def withChildren (ctx : Context) (childHandles : List AgentRef) : Context :=
  { ctx with state := { ctx.state with childHandles } }

/-- The retirement is on disk: tell the parent, if there is one, and complete. -/
def retired (ctx : Context) (reason : String) : Run × List Effect :=
  match ctx.input.parentHandle with
  | some parent =>
    let trigger := Trigger.childRetired ⟨ctx.workflowId, ctx.input.agentId⟩ ctx.input.agentName reason
    (ctx.awaiting (.signalParent reason), [.signalWorkflow parent.workflowId (.externalSignal trigger)])
  | none => ctx.close (.completed (.retired reason))

def resume (ctx : Context) (suggested : Bool) : Await → Reply → Option (Run × List Effect)
  | .buildSeed, .seedBuilt seed => some (ctx.decideStep (.new seed) (.ofNat (Session.new seed).len))
  | .decideStep session step, .decided action =>
    some (ctx.schedule (.appendDecisionLog ctx.input.fsHandle ctx.state.tick step action)
      (.logDecision session step action))
  | .logDecision session step action, .logged => some (ctx.afterLog session step action)
  | .executeAction session step action executing, reply =>
    (ctx.answer executing reply).map fun
      | .asks childHandles (executing, effects) =>
        ((ctx.withChildren childHandles).awaiting (.executeAction session step action executing), effects)
      | .observes childHandles observation =>
        (ctx.withChildren childHandles).afterExecute session step action observation suggested
      | .fails => ctx.close .failed
  | .commitTick, .committed => some (ctx.cycleBoundary suggested)
  | .persistRetirement reason, .retirementPersisted => some (ctx.retired reason)
  | .signalParent reason, .signalSent => some (ctx.close (.completed (.retired reason)))
  | .buildSeed, .failed | .decideStep _ _, .failed | .logDecision _ _ _, .failed | .commitTick, .failed
  | .persistRetirement _, .failed => some (ctx.close .failed)
  | _, _ => none

end Context

namespace Run

def step (run : Run) : Event → Option (Run × List Effect)
  | .signal signal =>
    match run.await with
    | .closed _ => none
    | _ => some ({ run with state := run.state.receive signal }, [])
  | .woken =>
    match run.await with
    | .waitForTick _ _ => if run.state.signalled then some run.leaveGate else none
    | _ => none
  | .timerFired =>
    match run.await with
    | .waitForTick _ true => some run.leaveGate
    | _ => none
  | .reply reply suggested => run.resume suggested run.await reply

end Run

def workflow : Machine Run Event Effect := ⟨Run.step⟩

/-- A workflow from the start of its first run, with the runs it continues as. -/
def lifetime (workflowId : String) (input : AgentInput) (events : List Event) : Option (Run × List Effect) :=
  (workflow.run (begin workflowId input).1 events).map fun (run, effects) =>
    (run, (begin workflowId input).2 ++ effects)

end Coral.Temporal

import Coral.Node.Wire

/-! `AgentWorkflow`: its input and state, the signal handlers, and the carryover that
takes the state across a continue-as-new. -/

namespace Coral.Temporal

structure AgentConfig where
deriving DecidableEq

structure FsHandle where
  storagePrefix : String
deriving DecidableEq

structure ParentRef where
  workflowId : String
  signal : String
deriving DecidableEq

structure SchedulerCursor where
  nextWake : Option Duration := none
deriving DecidableEq

structure Carryover where
  pendingTriggers : List Trigger := []
  pendingHumanOps : List HumanOp := []
  pendingMandatePatches : List MandatePatch := []
  retirementRequest : Option String := none
  schedulerCursor : SchedulerCursor := {}
  childHandles : List AgentRef := []
  lastOutputId : Option OutputId := none
  cumulativeTriggersObserved : UInt64 := 0
  cumulativeHumanOpsObserved : UInt64 := 0
  cumulativeMandatePatchesObserved : UInt64 := 0
  tick : UInt64 := 0
  inFlight : Option Session := none
deriving DecidableEq

structure AgentInput where
  cfg : AgentConfig
  fsHandle : FsHandle
  parentHandle : Option ParentRef
  carryover : Option Carryover
  mandate : Mandate
  graphId : GraphId
  agentId : AgentId
  agentName : String
deriving DecidableEq

def AgentInput.newForTest (graphId : GraphId) (agentId : AgentId) (agentName : String) : AgentInput where
  cfg := ⟨⟩
  fsHandle := ⟨""⟩
  parentHandle := none
  carryover := none
  mandate := .new "" ⟨0⟩ none
  graphId := graphId
  agentId := agentId
  agentName := agentName

def Carryover.toJson (carryover : Carryover) : Json :=
  .object [("pending_triggers", .list Trigger.toJson carryover.pendingTriggers),
    ("pending_human_ops", .list HumanOp.toJson carryover.pendingHumanOps),
    ("pending_mandate_patches", .list MandatePatch.toJson carryover.pendingMandatePatches),
    ("retirement_request", .option .string carryover.retirementRequest),
    ("scheduler_cursor", .object [("next_wake", .option Duration.toJson carryover.schedulerCursor.nextWake)]),
    ("child_handles", .list AgentRef.toJson carryover.childHandles),
    ("last_output_id", .option OutputId.toJson carryover.lastOutputId),
    ("cumulative_triggers_observed", .nat carryover.cumulativeTriggersObserved.toNat),
    ("cumulative_human_ops_observed", .nat carryover.cumulativeHumanOpsObserved.toNat),
    ("cumulative_mandate_patches_observed", .nat carryover.cumulativeMandatePatchesObserved.toNat),
    ("tick", .nat carryover.tick.toNat),
    ("in_flight", .option Session.toJson carryover.inFlight)]

def AgentInput.toJson (input : AgentInput) : Json :=
  .object [("cfg", .object []),
    ("fs_handle", .object [("prefix", .string input.fsHandle.storagePrefix)]),
    ("parent_handle", .option (fun parent => .object [("workflow_id", .string parent.workflowId),
      ("signal", .string parent.signal)]) input.parentHandle),
    ("carryover", .option Carryover.toJson input.carryover),
    ("mandate", input.mandate.toJson),
    ("graph_id", input.graphId.toJson),
    ("agent_id", input.agentId.toJson),
    ("agent_name", .string input.agentName)]

inductive AgentResult where
  | retired (reason : String)
deriving DecidableEq

def agentWorkflowId (graphId agentId : String) : String := "graphs/" ++ graphId ++ "/agents/" ++ agentId

def FsHandle.forAgent (graphId : GraphId) (agentId : AgentId) : FsHandle :=
  ⟨agentWorkflowId graphId.toString agentId.toString⟩

def ParentRef.DEFAULT_SIGNAL : String := "external_signal"

def INITIAL_NEXT_WAKE : Duration := .fromMillis 1

def CAN_PAYLOAD_HARD_BYTES : Nat := 1572864

def CAN_PAYLOAD_WARN_BYTES : Nat := 262144

structure AgentWorkflow where
  pendingTriggers : List Trigger := []
  pendingHumanOps : List HumanOp := []
  pendingMandatePatches : List MandatePatch := []
  retirementRequest : Option String := none
  nextWake : Option Duration := none
  cumulativeTriggersObserved : UInt64 := 0
  cumulativeHumanOpsObserved : UInt64 := 0
  cumulativeMandatePatchesObserved : UInt64 := 0
  lastOutputId : Option OutputId := none
  tick : UInt64 := 0
  childHandles : List AgentRef := []
  parked : Bool := false
  isNever : Bool := false
deriving DecidableEq

inductive Signal where
  | externalSignal (trigger : Trigger)
  | humanOverride (op : HumanOp)
  | mandateUpdate (patch : MandatePatch)
  | retire (reason : String)
deriving DecidableEq

namespace AgentWorkflow

/-- The signal handlers. The cumulative counters count receipts, not drains. -/
def receive (s : AgentWorkflow) : Signal → AgentWorkflow
  | .externalSignal trigger => { s with
      pendingTriggers := s.pendingTriggers ++ [trigger]
      cumulativeTriggersObserved := saturatingAdd s.cumulativeTriggersObserved 1 }
  | .humanOverride op => { s with
      pendingHumanOps := s.pendingHumanOps ++ [op]
      cumulativeHumanOpsObserved := saturatingAdd s.cumulativeHumanOpsObserved 1 }
  | .mandateUpdate patch => { s with
      pendingMandatePatches := s.pendingMandatePatches ++ [patch]
      cumulativeMandatePatchesObserved := saturatingAdd s.cumulativeMandatePatchesObserved 1 }
  | .retire reason => { s with retirementRequest := some reason }

def encodeCarryover (s : AgentWorkflow) : Carryover where
  pendingTriggers := s.pendingTriggers
  pendingHumanOps := s.pendingHumanOps
  pendingMandatePatches := s.pendingMandatePatches
  retirementRequest := s.retirementRequest
  schedulerCursor := { nextWake := s.nextWake }
  childHandles := s.childHandles
  lastOutputId := s.lastOutputId
  inFlight := none
  cumulativeTriggersObserved := s.cumulativeTriggersObserved
  cumulativeHumanOpsObserved := s.cumulativeHumanOpsObserved
  cumulativeMandatePatchesObserved := s.cumulativeMandatePatchesObserved
  tick := s.tick

def hydrateFromCarryover (s : AgentWorkflow) (c : Carryover) : AgentWorkflow := { s with
  pendingTriggers := c.pendingTriggers
  pendingHumanOps := c.pendingHumanOps
  pendingMandatePatches := c.pendingMandatePatches
  retirementRequest := c.retirementRequest
  nextWake := c.schedulerCursor.nextWake
  lastOutputId := c.lastOutputId
  cumulativeTriggersObserved := c.cumulativeTriggersObserved
  cumulativeHumanOpsObserved := c.cumulativeHumanOpsObserved
  cumulativeMandatePatchesObserved := c.cumulativeMandatePatchesObserved
  tick := c.tick
  childHandles := c.childHandles }

/-- The condition `wait_for_tick` waits for. -/
def signalled (s : AgentWorkflow) : Bool :=
  !s.pendingTriggers.isEmpty || !s.pendingHumanOps.isEmpty || !s.pendingMandatePatches.isEmpty ||
    s.retirementRequest.isSome

end AgentWorkflow

structure AgentSnapshot where
  pendingTriggersCount : Nat
  pendingHumanOpsCount : Nat
  pendingMandatePatchesCount : Nat
  retirementRequest : Option String
  recentOutputIds : List String
  cumulativeTriggersObserved : UInt64
  cumulativeHumanOpsObserved : UInt64
  cumulativeMandatePatchesObserved : UInt64
  parked : Bool
  isNever : Bool
  tick : UInt64
  nextWake : Option Duration
deriving DecidableEq

/-- `AgentSnapshot::from_state`, the answer to a `snapshot` query. -/
def AgentWorkflow.snapshot (s : AgentWorkflow) : AgentSnapshot where
  pendingTriggersCount := s.pendingTriggers.length
  pendingHumanOpsCount := s.pendingHumanOps.length
  pendingMandatePatchesCount := s.pendingMandatePatches.length
  retirementRequest := s.retirementRequest
  recentOutputIds := []
  cumulativeTriggersObserved := s.cumulativeTriggersObserved
  cumulativeHumanOpsObserved := s.cumulativeHumanOpsObserved
  cumulativeMandatePatchesObserved := s.cumulativeMandatePatchesObserved
  parked := s.parked
  isNever := s.isNever
  tick := s.tick
  nextWake := s.nextWake

structure DrainedBuckets where
  triggers : List Trigger
  humanOps : List HumanOp
  mandatePatches : List MandatePatch
  retirement : Option String
deriving DecidableEq

def drainBuckets (s : AgentWorkflow) : DrainedBuckets × AgentWorkflow :=
  (⟨s.pendingTriggers, s.pendingHumanOps, s.pendingMandatePatches, s.retirementRequest⟩,
    { s with pendingTriggers := [], pendingHumanOps := [], pendingMandatePatches := [], retirementRequest := none })

def synthesizeScheduledWake (drained : DrainedBuckets) : DrainedBuckets :=
  if drained.triggers.isEmpty && drained.humanOps.isEmpty && drained.mandatePatches.isEmpty &&
      drained.retirement.isNone then
    { drained with triggers := drained.triggers ++ [.scheduledWake] }
  else drained

def stepCapRetireReason (tick : UInt64) (stepCap : Option UInt64) : Option String :=
  let cap := stepCap.getD INTERIM_STEP_CAP
  if cap ≤ tick then some ("step_cap (" ++ toString cap.toNat ++ ") reached") else none

inductive CarryDecision where
  | carry (warn : Bool)
  | forceIdle
deriving DecidableEq

def carryDecision (payloadBytes : Nat) : CarryDecision :=
  if CAN_PAYLOAD_HARD_BYTES < payloadBytes then .forceIdle
  else .carry (CAN_PAYLOAD_WARN_BYTES < payloadBytes)

def midCycleInput (input : AgentInput) (base : Carryover) (session : Session) : AgentInput :=
  { input with carryover := some { base with inFlight := some session } }

end Coral.Temporal

import Coral.Node.Reading
import Coral.Temporal.State

/-! What the derived `Deserialize` makes of a workflow's input. A member that may be absent
is absent also where it is missing. -/

namespace Coral.Temporal
open Json

/-- An object with no fields of its own. -/
def AgentConfig.ofJson (value : Json) : Option AgentConfig := do
  let _ ← value.members
  return ⟨⟩

def FsHandle.ofJson (value : Json) : Option FsHandle := do
  let fields ← value.members
  let storagePrefix ← fields.required "prefix" asStr
  return ⟨storagePrefix⟩

def ParentRef.ofJson (value : Json) : Option ParentRef := do
  let fields ← value.members
  let workflowId ← fields.required "workflow_id" asStr
  let signal ← fields.required "signal" asStr
  return ⟨workflowId, signal⟩

def SchedulerCursor.ofJson (value : Json) : Option SchedulerCursor := do
  let fields ← value.members
  let nextWake ← fields.defaulted "next_wake" none (readOption Duration.ofJson)
  return ⟨nextWake⟩

def Carryover.ofJson (value : Json) : Option Carryover := do
  let fields ← value.members
  let pendingTriggers ← fields.required "pending_triggers" (readItems Trigger.ofJson)
  let pendingHumanOps ← fields.required "pending_human_ops" (readItems HumanOp.ofJson)
  let pendingMandatePatches ← fields.required "pending_mandate_patches" (readItems MandatePatch.ofJson)
  let retirementRequest ← fields.defaulted "retirement_request" none (readOption asStr)
  let schedulerCursor ← fields.required "scheduler_cursor" SchedulerCursor.ofJson
  let childHandles ← fields.required "child_handles" (readItems AgentRef.ofJson)
  let lastOutputId ← fields.defaulted "last_output_id" none (readOption OutputId.ofJson)
  let cumulativeTriggersObserved ← fields.required "cumulative_triggers_observed" readU64
  let cumulativeHumanOpsObserved ← fields.required "cumulative_human_ops_observed" readU64
  let cumulativeMandatePatchesObserved ← fields.required "cumulative_mandate_patches_observed" readU64
  let tick ← fields.required "tick" readU64
  let inFlight ← fields.defaulted "in_flight" none (readOption Session.ofJson)
  return ⟨pendingTriggers, pendingHumanOps, pendingMandatePatches, retirementRequest, schedulerCursor, childHandles,
    lastOutputId, cumulativeTriggersObserved, cumulativeHumanOpsObserved, cumulativeMandatePatchesObserved, tick, inFlight⟩

def AgentInput.ofJson (value : Json) : Option AgentInput := do
  let fields ← value.members
  let cfg ← fields.required "cfg" AgentConfig.ofJson
  let fsHandle ← fields.required "fs_handle" FsHandle.ofJson
  let parentHandle ← fields.defaulted "parent_handle" none (readOption ParentRef.ofJson)
  let carryover ← fields.defaulted "carryover" none (readOption Carryover.ofJson)
  let mandate ← fields.required "mandate" Mandate.ofJson
  let graphId ← fields.required "graph_id" GraphId.ofJson
  let agentId ← fields.required "agent_id" AgentId.ofJson
  let agentName ← fields.required "agent_name" asStr
  return ⟨cfg, fsHandle, parentHandle, carryover, mandate, graphId, agentId, agentName⟩

end Coral.Temporal

import Coral.Node.Decision

/-! The `serde` forms of the values an agent's input and decisions are made of:
member names, member order, tags, and which members are left out when absent. -/

namespace Coral

namespace Json

def nat (value : Nat) : Json := .number (.posInt value)

def list {α : Type} (toJson : α → Json) (values : List α) : Json := .array (values.map toJson)

def option {α : Type} (toJson : α → Json) : Option α → Json
  | some value => toJson value
  | none => .null

@[simp] theorem option_some {α : Type} (toJson : α → Json) (value : α) : option toJson (some value) = toJson value := rfl

@[simp] theorem option_none {α : Type} (toJson : α → Json) : option toJson none = .null := rfl

/-- A member under `skip_serializing_if = "Option::is_none"`. -/
def optionalMember {α : Type} (name : String) (toJson : α → Json) : Option α → List (String × Json)
  | some value => [(name, toJson value)]
  | none => []

end Json

/-- `duration_ms`: whole milliseconds, saturating at `u64::MAX`. -/
def Duration.toMillisJson (duration : Duration) : Json := .nat (min duration.asMillis u64Max)

/-- The derived form of `std::time::Duration`. -/
def Duration.toJson (duration : Duration) : Json :=
  .object [("secs", .nat (duration.nanos / 1000000000)), ("nanos", .nat (duration.nanos % 1000000000))]

def AgentId.toJson (id : AgentId) : Json := .string id.toString

def GraphId.toJson (id : GraphId) : Json := .string id.toString

def AgentRef.toJson (ref : AgentRef) : Json :=
  .object [("workflow_id", .string ref.workflowId), ("agent_id", ref.agentId.toJson)]

def OutputId.toJson (id : OutputId) : Json := .string id.hex

def RetryPolicy.toJson (policy : RetryPolicy) : Json :=
  .object [("max_attempts", .nat policy.maxAttempts.toNat), ("backoff", policy.backoff.toMillisJson)]

def ContextPolicy.toJson (policy : ContextPolicy) : Json :=
  .object [("recent_outputs", .nat policy.recentOutputs), ("recent_evidence", .nat policy.recentEvidence),
    ("open_claims_max", .nat policy.openClaimsMax)]

def Mandate.toJson (mandate : Mandate) : Json :=
  .object ([("text", .string mandate.text), ("idle_period", .option Duration.toMillisJson mandate.idlePeriod),
      ("step_cap", .option (fun cap => .nat cap.toNat) mandate.stepCap)] ++
    Json.optionalMember "retry_policy" RetryPolicy.toJson mandate.retryPolicy ++
    [("context_policy", mandate.contextPolicy.toJson)] ++
    Json.optionalMember "model" .string mandate.model ++
    [("tools", .list .string mandate.tools)])

def HumanOp.toJson (op : HumanOp) : Json := op.value

def MandatePatch.toJson (patch : MandatePatch) : Json := patch.value

def Trigger.toJson : Trigger → Json
  | .scheduledWake => .object [("type", .string "scheduled_wake")]
  | .external kind payload => .object [("type", .string "external"), ("kind", .string kind), ("payload", payload)]
  | .humanOverride op => .object [("type", .string "human_override"), ("op", op.toJson)]
  | .childOutput childRef agentName outputId =>
    .object [("type", .string "child_output"), ("child_ref", childRef.toJson), ("agent_name", .string agentName),
      ("output_id", outputId.toJson)]
  | .childRetired childRef agentName reason =>
    .object [("type", .string "child_retired"), ("child_ref", childRef.toJson), ("agent_name", .string agentName),
      ("reason", .string reason)]

def ToolCall.toJson (call : ToolCall) : Json :=
  .object ([("name", .string call.name), ("args", call.args), ("claim_seed", .string call.claimSeed)] ++
    Json.optionalMember "tool_use_id" .string call.toolUseId)

def FsOp.toJson : FsOp → Json
  | .writeFile path content =>
    .object [("op", .string "write_file"), ("path", .string path), ("content", .string content)]
  | .deleteFile path => .object [("op", .string "delete_file"), ("path", .string path)]

def ReconcileSource.toJson (source : ReconcileSource) : Json :=
  .object [("child_ref", source.childRef.toJson), ("output_id", source.outputId.toJson)]

def ConflictAlternative.toJson (alternative : ConflictAlternative) : Json :=
  .object [("source_child", alternative.sourceChild.toJson),
    ("source_output_id", alternative.sourceOutputId.toJson), ("claim", .string alternative.claim)]

def ConflictResolution.toJson (resolution : ConflictResolution) : Json :=
  .object [("chosen_alternative_idx", .nat resolution.chosenAlternativeIdx),
    ("reasoning", .string resolution.reasoning)]

def ConflictRecordIntent.toJson (intent : ConflictRecordIntent) : Json :=
  .object ([("alternatives", .list ConflictAlternative.toJson intent.alternatives)] ++
    Json.optionalMember "resolution" ConflictResolution.toJson intent.resolution)

def Decision.toJson : Decision → Json
  | .callTools calls => .object [("type", .string "call_tools"), ("calls", .list ToolCall.toJson calls)]
  | .writeOutput body citations =>
    .object [("type", .string "write_output"), ("body", .string body), ("citations", .list .string citations)]
  | .rewriteFs ops => .object [("type", .string "rewrite_fs"), ("ops", .list FsOp.toJson ops)]
  | .read path => .object [("type", .string "read"), ("path", .string path)]
  | .list path => .object [("type", .string "list"), ("path", .string path)]
  | .search query path =>
    .object ([("type", .string "search"), ("query", .string query)] ++ Json.optionalMember "path" .string path)
  | .idle nextAfter => .object [("type", .string "idle"), ("next_after", nextAfter.toMillisJson)]
  | .spawnChild agentName mandate =>
    .object [("type", .string "spawn_child"), ("agent_name", .string agentName), ("mandate", mandate.toJson)]
  | .reconcileChildren sources conflict =>
    .object ([("type", .string "reconcile_children"), ("sources", .list ReconcileSource.toJson sources)] ++
      Json.optionalMember "conflict" ConflictRecordIntent.toJson conflict)
  | .retireChild childRef reason =>
    .object [("type", .string "retire_child"), ("child_ref", childRef.toJson), ("reason", .string reason)]
  | .replaceChild childRef newMandate =>
    .object [("type", .string "replace_child"), ("child_ref", childRef.toJson), ("new_mandate", newMandate.toJson)]

def Remainder.toJson : Remainder → Json
  | .none => .string "none"
  | .exactly count => .object [("exactly", .nat count)]
  | .atLeast count => .object [("at_least", .nat count)]

def FsIndex.toJson (index : FsIndex) : Json :=
  .object [("notes", .list .string index.notes), ("outputs", .list .string index.outputs),
    ("notes_more", index.notesMore.toJson), ("outputs_more", index.outputsMore.toJson)]

def Seed.toJson (seed : Seed) : Json :=
  .object [("mandate", seed.mandate.toJson), ("triggers", .list Trigger.toJson seed.triggers),
    ("index", seed.index.toJson)]

def Observation.toJson (observation : Observation) : Json :=
  .object [("ok", .bool observation.ok), ("content", .string observation.content)]

def Step.toJson (step : Step) : Json :=
  .object [("action", step.action.toJson), ("observation", step.observation.toJson)]

def Session.toJson (session : Session) : Json :=
  .object [("seed", session.seed.toJson), ("steps", .list Step.toJson session.steps)]

end Coral

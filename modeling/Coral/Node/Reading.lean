import Coral.Node.Schema
import Coral.Node.Wire

/-! What the derived `Deserialize` makes of a decision or a session that is an object, by the
names of its members: a member that is missing is an error unless it has a default, and one
that no field goes by is passed over. -/

namespace Coral

namespace Json

/-- An unsigned integer of at most this size. -/
def readNat (max : Nat) : Json → Option Nat
  | .number (.posInt value) => if value ≤ max then some value else none
  | _ => none

def readU64 (value : Json) : Option UInt64 := (value.readNat u64Max).map .ofNat

def readU32 (value : Json) : Option UInt32 := (value.readNat (2 ^ 32 - 1)).map .ofNat

def readBool : Json → Option Bool
  | .bool value => some value
  | _ => none

def readItems {α : Type} (read : Json → Option α) : Json → Option (List α)
  | .array items => items.mapM read
  | _ => none

def readOption {α : Type} (read : Json → Option α) : Json → Option (Option α)
  | .null => some none
  | value => (read value).map some

/-- The members of an object, by name. -/
abbrev Members := String → Option Json

def members : Json → Option Members
  | .object members => some fun name => members.lookup name
  | _ => none

namespace Members

def required {α : Type} (members : Members) (name : String) (read : Json → Option α) : Option α :=
  (members name).bind read

/-- A field under `#[serde(default)]`. -/
def defaulted {α : Type} (members : Members) (name : String) (default : α) (read : Json → Option α) : Option α :=
  match members name with
  | some value => read value
  | none => some default

end Members

end Json

/-- The digits of a hexadecimal text, the last one first. -/
def hexDigitsRev (text : String) : List Nat :=
  ((text.toList.filter (· ≠ '-')).map fun char => if char.toNat < 58 then char.toNat - 48 else char.toNat - 87).reverse

def hexValue : List Nat → Nat
  | [] => 0
  | digit :: digits => digit + 16 * hexValue digits

/-- `Uuid::parse_str` of the form that a `Uuid` is written in. -/
def Uuid.ofHyphenated (text : String) : Option Uuid :=
  let uuid : Uuid := ⟨.ofNat 128 (hexValue (hexDigitsRev text))⟩
  if uuid.hyphenated = text then some uuid else none

open Json

/-- `duration_ms`. -/
def Duration.ofMillisJson (value : Json) : Option Duration := (value.readNat u64Max).map .fromMillis

def AgentId.ofJson (value : Json) : Option AgentId := do
  let text ← value.asStr
  let uuid ← Uuid.ofHyphenated text
  return ⟨uuid⟩

def GraphId.ofJson (value : Json) : Option GraphId := do
  let text ← value.asStr
  let uuid ← Uuid.ofHyphenated text
  return ⟨uuid⟩

def OutputId.ofJson (value : Json) : Option OutputId := value.asStr.map .mk

def AgentRef.ofJson (value : Json) : Option AgentRef := do
  let fields ← value.members
  let workflowId ← fields.required "workflow_id" asStr
  let agentId ← fields.required "agent_id" AgentId.ofJson
  return ⟨workflowId, agentId⟩

def RetryPolicy.ofJson (value : Json) : Option RetryPolicy := do
  let fields ← value.members
  let maxAttempts ← fields.required "max_attempts" readU32
  let backoff ← fields.required "backoff" Duration.ofMillisJson
  return ⟨maxAttempts, backoff⟩

def ContextPolicy.ofJson (value : Json) : Option ContextPolicy := do
  let fields ← value.members
  let recentOutputs ← fields.defaulted "recent_outputs" 8 (readNat u64Max)
  let recentEvidence ← fields.defaulted "recent_evidence" 8 (readNat u64Max)
  let openClaimsMax ← fields.defaulted "open_claims_max" 32 (readNat u64Max)
  return ⟨recentOutputs, recentEvidence, openClaimsMax⟩

def Mandate.ofJson (value : Json) : Option Mandate := do
  let fields ← value.members
  let text ← fields.required "text" asStr
  let idlePeriod ← fields.required "idle_period" (readOption Duration.ofMillisJson)
  let stepCap ← fields.defaulted "step_cap" none (readOption readU64)
  let retryPolicy ← fields.defaulted "retry_policy" none (readOption RetryPolicy.ofJson)
  let contextPolicy ← fields.defaulted "context_policy" {} ContextPolicy.ofJson
  let model ← fields.defaulted "model" none (readOption asStr)
  let tools ← fields.defaulted "tools" [] (readItems asStr)
  return ⟨text, idlePeriod, stepCap, retryPolicy, contextPolicy, model, tools⟩

def ToolCall.ofJson (value : Json) : Option ToolCall := do
  let fields ← value.members
  let name ← fields.required "name" asStr
  let args ← fields.required "args" some
  let claimSeed ← fields.required "claim_seed" asStr
  let toolUseId ← fields.defaulted "tool_use_id" none (readOption asStr)
  return ⟨name, args, claimSeed, toolUseId⟩

def FsOp.ofJson (value : Json) : Option FsOp := do
  let fields ← value.members
  match ← fields.required "op" asStr with
  | "write_file" =>
    let path ← fields.required "path" asStr
    let content ← fields.required "content" asStr
    return .writeFile path content
  | "delete_file" => return .deleteFile (← fields.required "path" asStr)
  | _ => none

def ReconcileSource.ofJson (value : Json) : Option ReconcileSource := do
  let fields ← value.members
  let childRef ← fields.required "child_ref" AgentRef.ofJson
  let outputId ← fields.required "output_id" OutputId.ofJson
  return ⟨childRef, outputId⟩

def ConflictAlternative.ofJson (value : Json) : Option ConflictAlternative := do
  let fields ← value.members
  let sourceChild ← fields.required "source_child" AgentRef.ofJson
  let sourceOutputId ← fields.required "source_output_id" OutputId.ofJson
  let claim ← fields.required "claim" asStr
  return ⟨sourceChild, sourceOutputId, claim⟩

def ConflictResolution.ofJson (value : Json) : Option ConflictResolution := do
  let fields ← value.members
  let chosenAlternativeIdx ← fields.required "chosen_alternative_idx" (readNat u64Max)
  let reasoning ← fields.required "reasoning" asStr
  return ⟨chosenAlternativeIdx, reasoning⟩

def ConflictRecordIntent.ofJson (value : Json) : Option ConflictRecordIntent := do
  let fields ← value.members
  let alternatives ← fields.required "alternatives" (readItems ConflictAlternative.ofJson)
  let resolution ← fields.defaulted "resolution" none (readOption ConflictResolution.ofJson)
  return ⟨alternatives, resolution⟩

/-- The variant of this tag, of these fields. -/
def Decision.ofMembers (tag : String) (fields : Members) : Option Decision :=
  match tag with
  | "call_tools" => do return .callTools (← fields.required "calls" (readItems ToolCall.ofJson))
  | "write_output" => do
    let body ← fields.required "body" asStr
    let citations ← fields.required "citations" (readItems asStr)
    return .writeOutput body citations
  | "rewrite_fs" => do return .rewriteFs (← fields.required "ops" (readItems FsOp.ofJson))
  | "read" => do return .read (← fields.required "path" asStr)
  | "list" => do return .list (← fields.required "path" asStr)
  | "search" => do
    let query ← fields.required "query" asStr
    let path ← fields.defaulted "path" none (readOption asStr)
    return .search query path
  | "idle" => do return .idle (← fields.required "next_after" Duration.ofMillisJson)
  | "spawn_child" => do
    let agentName ← fields.required "agent_name" asStr
    let mandate ← fields.required "mandate" Mandate.ofJson
    return .spawnChild agentName mandate
  | "reconcile_children" => do
    let sources ← fields.required "sources" (readItems ReconcileSource.ofJson)
    let conflict ← fields.defaulted "conflict" none (readOption ConflictRecordIntent.ofJson)
    return .reconcileChildren sources conflict
  | "retire_child" => do
    let childRef ← fields.required "child_ref" AgentRef.ofJson
    let reason ← fields.required "reason" asStr
    return .retireChild childRef reason
  | "replace_child" => do
    let childRef ← fields.required "child_ref" AgentRef.ofJson
    let newMandate ← fields.required "new_mandate" Mandate.ofJson
    return .replaceChild childRef newMandate
  | _ => none

/-- The tag is the member `type`. -/
def Decision.ofJson (value : Json) : Option Decision := do
  let fields ← value.members
  let tag ← fields.required "type" asStr
  Decision.ofMembers tag fields

/-- The derived form of `std::time::Duration`, which takes no other members. -/
def Duration.ofJson : Json → Option Duration
  | .object members => do
    let secs ← (members.lookup "secs").bind (readNat u64Max)
    let nanos ← (members.lookup "nanos").bind (readNat (2 ^ 32 - 1))
    if (members.all fun member => ["secs", "nanos"].contains member.1) && secs + nanos / 1000000000 ≤ u64Max then
      some ⟨secs * 1000000000 + nanos⟩
    else none
  | _ => none

def HumanOp.ofJson (value : Json) : Option HumanOp := some ⟨value⟩

def MandatePatch.ofJson (value : Json) : Option MandatePatch := some ⟨value⟩

/-- The variant of this tag, of these fields. -/
def Trigger.ofMembers (tag : String) (fields : Members) : Option Trigger :=
  match tag with
  | "scheduled_wake" => some .scheduledWake
  | "external" => do
    let kind ← fields.required "kind" asStr
    let payload ← fields.required "payload" some
    return .external kind payload
  | "human_override" => do return .humanOverride (← fields.required "op" HumanOp.ofJson)
  | "child_output" => do
    let childRef ← fields.required "child_ref" AgentRef.ofJson
    let agentName ← fields.required "agent_name" asStr
    let outputId ← fields.required "output_id" OutputId.ofJson
    return .childOutput childRef agentName outputId
  | "child_retired" => do
    let childRef ← fields.required "child_ref" AgentRef.ofJson
    let agentName ← fields.required "agent_name" asStr
    let reason ← fields.required "reason" asStr
    return .childRetired childRef agentName reason
  | _ => none

def Trigger.ofJson (value : Json) : Option Trigger := do
  let fields ← value.members
  let tag ← fields.required "type" asStr
  Trigger.ofMembers tag fields

/-- An enum without a tag of its own: the name of a variant, or that name over what it holds. -/
def Remainder.ofJson : Json → Option Remainder
  | .string "none" => some .none
  | .object [("none", .null)] => some .none
  | .object [("exactly", count)] => (count.readNat u64Max).map .exactly
  | .object [("at_least", count)] => (count.readNat u64Max).map .atLeast
  | _ => Option.none

def FsIndex.ofJson (value : Json) : Option FsIndex := do
  let fields ← value.members
  let notes ← fields.defaulted "notes" [] (readItems asStr)
  let outputs ← fields.defaulted "outputs" [] (readItems asStr)
  let notesMore ← fields.defaulted "notes_more" .none Remainder.ofJson
  let outputsMore ← fields.defaulted "outputs_more" .none Remainder.ofJson
  return ⟨notes, outputs, notesMore, outputsMore⟩

def Seed.ofJson (value : Json) : Option Seed := do
  let fields ← value.members
  let mandate ← fields.required "mandate" Mandate.ofJson
  let triggers ← fields.required "triggers" (readItems Trigger.ofJson)
  let index ← fields.required "index" FsIndex.ofJson
  return ⟨mandate, triggers, index⟩

def Observation.ofJson (value : Json) : Option Observation := do
  let fields ← value.members
  let ok ← fields.required "ok" readBool
  let content ← fields.required "content" asStr
  return ⟨ok, content⟩

def Step.ofJson (value : Json) : Option Step := do
  let fields ← value.members
  let action ← fields.required "action" Decision.ofJson
  let observation ← fields.required "observation" Observation.ofJson
  return ⟨action, observation⟩

def Session.ofJson (value : Json) : Option Session := do
  let fields ← value.members
  let seed ← fields.required "seed" Seed.ofJson
  let steps ← fields.required "steps" (readItems Step.ofJson)
  return ⟨seed, steps⟩

end Coral

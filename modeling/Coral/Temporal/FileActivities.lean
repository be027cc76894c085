import Coral.Node.AgentCore
import Coral.Node.CallTools
import Coral.Node.PerAgentGit
import Coral.Node.Tools
import Coral.Temporal.Activities
import Coral.Temporal.Provenance
import Coral.Temporal.Workflow

/-! The activities that write an agent's files, and the one that registers a child. Each
returns the store as it leaves it, also where it fails. -/

namespace Coral

structure ConflictId where
  hex : String
deriving DecidableEq

/-- `ConflictId::new`: neither the time nor the kind is part of it. -/
def ConflictId.new (alternatives : List ConflictAlternative) (resolution : Option ConflictResolution) : ConflictId :=
  let envelope := Json.object [("alternatives", .list ConflictAlternative.toJson alternatives),
    ("resolution", .option ConflictResolution.toJson resolution)]
  ⟨String.ofList (Library.hexDigits (Library.Sha256.digest (String.ofList envelope.canonical.render).toUTF8.toList))⟩

inductive ConflictKind where
  | heldOpen
  | resolved
deriving DecidableEq

def ConflictKind.fromResolution (resolution : Option ConflictResolution) : ConflictKind :=
  if resolution.isSome then .resolved else .heldOpen

def ConflictKind.toJson : ConflictKind → Json
  | .heldOpen => .string "held_open"
  | .resolved => .string "resolved"

/-- Its fields are open to every caller; the constructor below derives the id and the kind. -/
structure ConflictRecord where
  id : ConflictId
  timestamp : DateTime
  kind : ConflictKind
  alternatives : List ConflictAlternative
  resolution : Option ConflictResolution
deriving DecidableEq

def ConflictRecord.new (timestamp : DateTime) (intent : ConflictRecordIntent) : ConflictRecord :=
  ⟨.new intent.alternatives intent.resolution, timestamp, .fromResolution intent.resolution, intent.alternatives,
    intent.resolution⟩

def ConflictRecord.toJson (rfc3339 : DateTime → String) (record : ConflictRecord) : Json :=
  .object ([("id", .string record.id.hex), ("timestamp", .string (rfc3339 record.timestamp)),
      ("kind", record.kind.toJson),
      ("alternatives", .list ConflictAlternative.toJson record.alternatives)] ++
    Json.optionalMember "resolution" ConflictResolution.toJson record.resolution)

namespace AgentFs

variable {σ : Type} [AgentStorage σ]

def openForAgent (graphId : GraphId) (agentId : AgentId) : AgentFs :=
  attach ("graphs/" ++ graphId.toString ++ "/agents/" ++ agentId.toString ++ "/")

def conflictKey (fs : AgentFs) (id : ConflictId) : String := fs.key ("conflicts/" ++ id.hex ++ ".json")

/-- What is there under the record's id stays. -/
def writeConflict (fs : AgentFs) (rfc3339 : DateTime → String) (record : ConflictRecord) (storage : σ) :
    Except FsError ConflictId × σ :=
  if record.alternatives.length < 2 then (.error (.conflictAlternativesTooFew record.alternatives.length), storage)
  else
    let key := fs.conflictKey record.id
    match stored key (AgentStorage.putIfAbsent storage key (.json (record.toJson rfc3339))) with
    | .error error => (.error error, storage)
    | .ok (_, after) => (.ok record.id, after)

end AgentFs

namespace Temporal

inductive ReconcileError where
  | childOutputNotFound (agentId : AgentId) (outputId : OutputId)
  | conflictAlternativesTooFew (count : Nat)
  | fs (error : FsError)
  | utf8
deriving DecidableEq

/-- What the source has as a `ReconciliationError`, which no retry follows. -/
def ReconcileError.isTyped : ReconcileError → Bool
  | .childOutputNotFound _ _ | .conflictAlternativesTooFew _ => true
  | .fs _ | .utf8 => false

structure ReconcileChildrenInput where
  parentGraphId : GraphId
  parentAgentId : AgentId
  sources : List ReconcileSource
  conflict : Option ConflictRecordIntent
deriving DecidableEq

structure ReconcileChildrenOutput where
  syntheticEvidence : List String
  conflictId : Option ConflictId
deriving DecidableEq

structure DecisionLogEntry where
  tick : UInt64
  step : UInt64
  decisionSummary : String
  ts : DateTime
deriving DecidableEq

def DecisionLogEntry.toJson (rfc3339 : DateTime → String) (entry : DecisionLogEntry) : Json :=
  .object [("tick", .nat entry.tick.toNat), ("step", .nat entry.step.toNat),
    ("decision_summary", .string entry.decisionSummary), ("ts", .string (rfc3339 entry.ts))]

def placeholderMandate : Mandate := .new "" ⟨0⟩ none

section ExecuteTool

/-- What a call comes to before anything is written. -/
def dispatchTool (registry : Except String ToolRegistry) (allowedTools : List String) (call : ToolCall)
    (now : DateTime) : Except ToolCallFailure EvidenceRecord :=
  match registry with
  | .error error => .error ⟨call.name, call.args, "tool registry unavailable for graph: " ++ error⟩
  | .ok registry =>
    if registry.isCallAllowed call.name allowedTools = false then
      .error ⟨call.name, call.args, "tool " ++ debugString call.name ++ " is not assigned to this agent"⟩
    else (registry.call call.name call.args now).mapError fun error => ⟨call.name, call.args, error⟩

variable {σ : Type} [AgentStorage σ]

def executeTool (fsHandle : FsHandle) (registry : Except String ToolRegistry) (allowedTools : List String)
    (call : ToolCall) (clock : Clock) (storage : σ) : Except String ToolCallOutcome × σ :=
  match dispatchTool registry allowedTools call (clock 0) with
  | .error failure => (.ok (.failure failure), storage)
  | .ok record =>
    match AgentFs.openWithStorage fsHandle.storagePrefix placeholderMandate (fun reading => clock (reading + 1)) storage with
    | (.error error, opened) => (.error ("agent_fs open failed: " ++ error.toString), opened)
    | (.ok fs, opened) =>
      match fs.recordEvidence (clock 3) record call.claimSeed opened with
      | (.error error, after) => (.error ("record_evidence failed: " ++ error.toString), after)
      | (.ok evidencePath, after) => (.ok (.success evidencePath), after)

end ExecuteTool

section ReconcileChildren

variable {σ : Type} [AgentStorage σ]

/-- `read_output` of the child's canonical output, whatever version it is at. -/
def readChildOutput (codec : Codec) (graphId : GraphId) (source : ReconcileSource) (storage : σ) :
    Except ReconcileError String :=
  let childFs := AgentFs.openForAgent graphId source.childRef.agentId
  match AgentFs.get storage (childFs.key CANONICAL_OUTPUT) with
  | .error error => .error (.fs error)
  | .ok none => .error (.childOutputNotFound source.childRef.agentId source.outputId)
  | .ok (some bytes) =>
    match codec.fromUtf8 bytes with
    | some body => .ok body
    | none => .error .utf8

def readChildOutputs (codec : Codec) (graphId : GraphId) (storage : σ) :
    List ReconcileSource → Except ReconcileError (List (ReconcileSource × String))
  | [] => .ok []
  | source :: sources => do
    let body ← readChildOutput codec graphId source storage
    let bodies ← readChildOutputs codec graphId storage sources
    return (source, body) :: bodies

/-- The record that pins the version that was read. -/
def foldRecord (codec : Codec) (source : ReconcileSource) (body : String) (now : DateTime) : EvidenceRecord :=
  .new "reconcile" (.object [("child_agent_id", source.childRef.agentId.toJson),
    ("child_output_blob_sha", .string (codec.ofBytes (.text body)).hex),
    ("child_workflow_id", .string source.childRef.workflowId), ("source_output_id", source.outputId.toJson)])
    (.string body) now

def foldSeed (source : ReconcileSource) : String := "reconcile " ++ source.childRef.workflowId

def writeFolds (codec : Codec) (fs : AgentFs) (now : DateTime) (clock : Clock) :
    Nat → List (ReconcileSource × String) → σ → Except ReconcileError (List String) × σ
  | _, [], storage => (.ok [], storage)
  | reading, (source, body) :: folds, storage =>
    match fs.recordEvidence (clock reading) (foldRecord codec source body now) (foldSeed source) storage with
    | (.error error, after) => (.error (.fs error), after)
    | (.ok path, after) =>
      match writeFolds codec fs now clock (reading + 1) folds after with
      | (.error error, final) => (.error error, final)
      | (.ok paths, final) => (.ok (path :: paths), final)

def writeConflict (codec : Codec) (fs : AgentFs) (now : DateTime) (conflict : Option ConflictRecordIntent)
    (storage : σ) : Except ReconcileError (Option ConflictId) × σ :=
  match conflict with
  | none => (.ok none, storage)
  | some intent =>
    if intent.alternatives.length < 2 then
      (.error (.conflictAlternativesTooFew intent.alternatives.length), storage)
    else
      match fs.writeConflict codec.rfc3339 (.new now intent) storage with
      | (.error error, after) => (.error (.fs error), after)
      | (.ok id, after) => (.ok (some id), after)

/-- Every child is read before anything is written. -/
def reconcileChildrenImpl (codec : Codec) (input : ReconcileChildrenInput) (now : DateTime) (clock : Clock)
    (storage : σ) : Except ReconcileError ReconcileChildrenOutput × σ :=
  let parentFs := AgentFs.openForAgent input.parentGraphId input.parentAgentId
  match readChildOutputs codec input.parentGraphId storage input.sources with
  | .error error => (.error error, storage)
  | .ok childOutputs =>
    match writeFolds codec parentFs now clock 0 childOutputs storage with
    | (.error error, after) => (.error error, after)
    | (.ok syntheticEvidence, after) =>
      match writeConflict codec parentFs now input.conflict after with
      | (.error error, final) => (.error error, final)
      | (.ok conflictId, final) => (.ok ⟨syntheticEvidence, conflictId⟩, final)

end ReconcileChildren

section Writers

variable {σ : Type} [AgentStorage σ]

def buildSeedFs (fsHandle : FsHandle) (mandate : Mandate) (clock : Clock) (storage : σ) : Except FsError Unit × σ :=
  match AgentFs.openWithStorage fsHandle.storagePrefix mandate clock storage with
  | (.error error, opened) => (.error error, opened)
  | (.ok _, opened) => (.ok (), opened)

/-- `build_seed`. The mandate patches are dropped. -/
def buildSeedImpl (mandate : Mandate) (fsHandle : FsHandle) (triggers : List Trigger) (humanOps : List HumanOp)
    (_mandatePatches : List MandatePatch) (clock : Clock) (storage : σ) : Except FsError Seed × σ :=
  match AgentFs.openWithStorage fsHandle.storagePrefix mandate clock storage with
  | (.error error, opened) => (.error error, opened)
  | (.ok fs, opened) => (buildSeed fs (seedTriggers triggers humanOps) mandate opened, opened)

def applyFsOpsImpl (fsHandle : FsHandle) (mandate : Mandate) (ops : List FsOp) (clock : Clock) (storage : σ) :
    Except FsError Observation × σ :=
  match AgentFs.openWithStorage fsHandle.storagePrefix mandate clock storage with
  | (.error error, opened) => (.error error, opened)
  | (.ok fs, opened) =>
    match rewriteFs fs (fun reading => clock (reading + 2)) ops opened with
    | (.ok outcome, after) => (.ok outcome.observation, after)
    | (.error error, after) => (.error error, after)

def FsNavOp.intoDecision : FsNavOp → Decision
  | .read path => .read path
  | .list path => .list path
  | .search query path => .search query path

/-- `read_fs`, with a registry that has no tools. -/
def readFsImpl (render : Content → String) (fsHandle : FsHandle) (op : FsNavOp) (storage : σ) :
    Option (Except FsError Observation) :=
  let noTools (fs : AgentFs) (calls : List ToolCall) (storage : σ) : Except FsError StepOutcome × σ :=
    (executeCallTools fs .new (fun _ => .ok .null) (fun _ => ⟨0⟩) (fun _ => ⟨0⟩) calls storage).2
  (executeStep (.attach fsHandle.storagePrefix) render noTools (fun _ => ⟨0⟩) op.intoDecision storage).map
    fun (outcome, _) => outcome.map (·.observation)

def persistRetirement (codec : Codec) (fsHandle : FsHandle) (reason : String) (retiredAt : DateTime) (storage : σ) :
    Except FsError Unit × σ :=
  let fs := AgentFs.attach fsHandle.storagePrefix
  AgentFs.settle storage (AgentFs.put storage (fs.key "retirement.json")
    (.json (.object [("reason", .string reason), ("retired_at", .string (codec.rfc3339 retiredAt))])))

/-- Every step of a tick has its own file. -/
def appendDecisionLogImpl (codec : Codec) (fsHandle : FsHandle) (entry : DecisionLogEntry) (storage : σ) :
    Except FsError Unit × σ :=
  let fs := AgentFs.attach fsHandle.storagePrefix
  let key := fs.key ("decisions/" ++ toString entry.tick.toNat ++ "-" ++ toString entry.step.toNat ++ ".jsonl")
  AgentFs.settle storage (AgentFs.put storage key (.json (entry.toJson codec.rfc3339)))

end Writers

/-- The message is the tick's own, so a retry commits the same. -/
def commitTickImpl (ofBytes : Content → BlobSha) (rules : GitRules) (storage : PerAgentGitStorage) (agentPrefix : String)
    (tick : UInt64) : PerAgentGitStorage :=
  (storage.commit ofBytes rules agentPrefix ("tick " ++ toString tick.toNat)).2

/-- The child's row comes before its edge. `childAgentId` is the id that is drawn for it. -/
def registerChildImpl {δ : Type} [StructuralDbStore δ] (parentGraphId : GraphId) (parentAgentId : AgentId)
    (childAgentName : String) (childTools : List String) (childAgentId : AgentId) (db : δ) : Except DbError RegisterChildOutcome × δ :=
  match (if childTools.isEmpty then .ok none
      else (StructuralDbStore.listToolDefIdsForGraph db parentGraphId).map fun defined =>
        childTools.find? fun tool => !defined.contains tool) with
  | .error error => (.error error, db)
  | .ok (some tool) => (.ok (.rejectedUnknownTool tool), db)
  | .ok none =>
    match StructuralDbStore.addAgent db parentGraphId childAgentName childAgentId with
    | .error error => (.error error, db)
    | .ok added =>
      match StructuralDbStore.addEdge added parentAgentId childAgentId with
      | .error error => (.error error, added)
      | .ok linked => (.ok (.registered childAgentId), linked)

end Temporal

end Coral

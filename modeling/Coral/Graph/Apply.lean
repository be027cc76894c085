import Coral.Graph.Store
import Coral.Graph.Yaml
import Coral.Temporal.Workflow
import Mathlib.Data.List.Sort

/-! `coral apply`: a graph's rows are written in one transaction, and the workflows and the
triggers to start with are built against the ids that it allocated. -/

namespace Coral

inductive GraphStoreError where
  | graphAlreadyExists (name : String)
  | sqlx (error : DbError)
deriving DecidableEq

namespace StructuralDb

def insertGraph (db : StructuralDb) (row : GraphRecord) : Except DbError StructuralDb :=
  if row.id ∈ db.graphs.map (·.id) ∨ row.name ∈ db.graphs.map (·.name) then .error .uniqueViolation
  else .ok { db with graphs := db.graphs ++ [row] }

def insertTool (db : StructuralDb) (row : ToolRecord) : Except DbError StructuralDb :=
  if row.defId ∈ db.listToolDefIdsForGraph row.graphId then .error .uniqueViolation
  else if row.graphId ∉ db.graphs.map (·.id) then .error (.unknownGraph row.graphId)
  else .ok { db with tools := db.tools ++ [row] }

end StructuralDb

namespace Yaml

structure ResolvedAgent where
  operatorId : String
  dbAgentId : AgentId
  parentDbAgentId : Option AgentId
deriving DecidableEq

structure ResolvedAgentWorkflow where
  dbAgentId : AgentId
  workflowId : String
deriving DecidableEq

structure AppliedGraph where
  graphId : GraphId
  graphName : String
  agents : List ResolvedAgent
  idMap : AList fun _ : String => ResolvedAgentWorkflow

/-- What the walk threads along. `drawn` counts the ids that `Uuid::new_v4` has given out. -/
structure Walk where
  tx : StructuralDb
  drawn : Nat
  resolvedAgents : List ResolvedAgent
  idMap : AList fun _ : String => ResolvedAgentWorkflow

def Tool.row (graphId : GraphId) (tool : Tool) : ToolRecord :=
  match tool.kind with
  | .builtin builtin => ⟨graphId, tool.id, "builtin", some builtin, .array [], .array []⟩
  | .mcp command args env =>
    let entries : List ((_ : String) × String) := (env.getD ∅).entries.insertionSort fun first second =>
      first.1.toList ≤ second.1.toList
    ⟨graphId, tool.id, "mcp", some command, .array (args.map .string),
      .object (entries.map fun entry => (entry.1, .string entry.2))⟩

section Rows

variable (draw : Nat → Uuid) (graphId : GraphId)

def insertTools : List Tool → StructuralDb → Except DbError StructuralDb
  | [], tx => .ok tx
  | tool :: tools, tx =>
    match tx.insertTool (tool.row graphId) with
    | .error error => .error error
    | .ok tx => insertTools tools tx

/-- An agent's own row, and the edge from its parent. The edge's row has an id of its own. -/
def walkAgent (id : String) (parentDbId : Option AgentId) (walk : Walk) : Except DbError (AgentId × Walk) :=
  let dbAgentId : AgentId := ⟨draw walk.drawn⟩
  let resolved (tx : StructuralDb) (drawn : Nat) : AgentId × Walk :=
    (dbAgentId,
      { tx, drawn
        resolvedAgents := walk.resolvedAgents ++ [⟨id, dbAgentId, parentDbId⟩]
        idMap := walk.idMap.insert id ⟨dbAgentId, Temporal.agentWorkflowId graphId.toString dbAgentId.toString⟩ })
  match walk.tx.addAgent graphId id dbAgentId with
  | .error error => .error error
  | .ok tx =>
    match parentDbId with
    | none => .ok (resolved tx (walk.drawn + 1))
    | some parent =>
      match tx.addEdge parent dbAgentId with
      | .error error => .error error
      | .ok tx => .ok (resolved tx (walk.drawn + 2))

mutual
def walkAgentTree (parentDbId : Option AgentId) (walk : Walk) : Agent → Except DbError Walk
  | ⟨id, _, _, children⟩ =>
    match walkAgent draw graphId id parentDbId walk with
    | .error error => .error error
    | .ok (dbAgentId, walk) => walkAgents (some dbAgentId) walk children

def walkAgents (parentDbId : Option AgentId) (walk : Walk) : List Agent → Except DbError Walk
  | [] => .ok walk
  | agent :: agents =>
    match walkAgentTree parentDbId walk agent with
    | .error error => .error error
    | .ok walk => walkAgents parentDbId walk agents
end

end Rows

def GraphYaml.graphMetadata (graph : GraphYaml) : Json :=
  match graph.policy with
  | some policy => .object [("policy", policy)]
  | none => .object []

/-- The graph's id is drawn first, then one for each tool. A call that fails rolls
everything back. -/
def createFromYaml (draw : Nat → Uuid) (graph : GraphYaml) (db : StructuralDb) :
    Except GraphStoreError (AppliedGraph × StructuralDb) :=
  if graph.metadata.name ∈ db.graphs.map (·.name) then .error (.graphAlreadyExists graph.metadata.name)
  else
    let graphId : GraphId := ⟨draw 0⟩
    match db.insertGraph ⟨graphId, graph.metadata.name, graph.graphMetadata⟩ with
    | .error .uniqueViolation => .error (.graphAlreadyExists graph.metadata.name)
    | .error error => .error (.sqlx error)
    | .ok tx =>
      match insertTools graphId graph.tools tx with
      | .error error => .error (.sqlx error)
      | .ok tx =>
        match walkAgents draw graphId none ⟨tx, 1 + graph.tools.length, [], ∅⟩ graph.agents with
        | .error error => .error (.sqlx error)
        | .ok walk => .ok (⟨graphId, graph.metadata.name, walk.resolvedAgents, walk.idMap⟩, walk.tx)

/-- An `expect` that does not hold. -/
structure Panic where
  message : String
deriving DecidableEq

def expect {α : Type} (message : String) : Option α → Except Panic α
  | some value => .ok value
  | none => .error ⟨message⟩

def resolveMandate (agent : Agent) (defaults : Option AgentDefaults) : Except Panic Coral.Mandate :=
  match expect "validate() should have rejected agents without idle_period"
      (agent.mandate.idlePeriod <|> defaults.bind (·.idlePeriod)) with
  | .error panicked => .error panicked
  | .ok cadence =>
    let mandate := match cadence with
      | .every period => Coral.Mandate.new agent.mandate.text period none
      | .never => Coral.Mandate.newNever agent.mandate.text none
    .ok { mandate with model := agent.mandate.model, tools := agent.tools }

structure WorkflowStart where
  workflowId : String
  input : Temporal.AgentInput
deriving DecidableEq

structure ResolvedSeedTrigger where
  workflowId : String
  trigger : Trigger
deriving DecidableEq

mutual
def indexAgents (out : AList fun _ : String => Agent) : Agent → AList fun _ : String => Agent
  | ⟨id, mandate, tools, children⟩ => indexForest (out.insert id ⟨id, mandate, tools, children⟩) children

def indexForest (out : AList fun _ : String => Agent) : List Agent → AList fun _ : String => Agent
  | [] => out
  | agent :: agents => indexForest (indexAgents out agent) agents
end

def buildWorkflowStart (graph : GraphYaml) (applied : AppliedGraph) (resolved : ResolvedAgent) :
    Except Panic WorkflowStart := do
  let yamlAgent ← expect "AppliedGraph operator_id must reference a YAML agent"
    ((indexForest ∅ graph.agents).lookup resolved.operatorId)
  let mandate ← resolveMandate yamlAgent graph.defaults
  let workflow ← expect "AppliedGraph id_map missing entry" (applied.idMap.lookup resolved.operatorId)
  match resolved.parentDbAgentId with
  | none =>
    return ⟨workflow.workflowId,
      Temporal.buildRootInput applied.graphId resolved.dbAgentId resolved.operatorId mandate ⟨⟩⟩
  | some parentDbId =>
    let parent ← expect "parent_db_agent_id must reference some agent in AppliedGraph"
      (applied.agents.find? fun agent => decide (agent.dbAgentId = parentDbId))
    let parentWorkflow ← expect "id_map missing parent operator id" (applied.idMap.lookup parent.operatorId)
    return ⟨workflow.workflowId,
      Temporal.buildChildInput parentWorkflow.workflowId applied.graphId resolved.dbAgentId resolved.operatorId mandate ⟨⟩⟩

def buildWorkflowStarts (graph : GraphYaml) (applied : AppliedGraph) : Except Panic (List WorkflowStart) :=
  applied.agents.mapM (buildWorkflowStart graph applied)

def yamlSeedTrigger (applied : AppliedGraph) (seed : SeedTrigger) : Except GraphYamlError ResolvedSeedTrigger :=
  match applied.idMap.lookup seed.agent with
  | none => .error (.unknownTriggerAgent seed.agent)
  | some workflow => .ok ⟨workflow.workflowId, .external seed.external.kind seed.external.payload⟩

def yamlSeedTriggers (graph : GraphYaml) (applied : AppliedGraph) : Except GraphYamlError (List ResolvedSeedTrigger) :=
  graph.seed.triggers.mapM (yamlSeedTrigger applied)

end Yaml

end Coral

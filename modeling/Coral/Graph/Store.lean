import Coral.Node.Decision
import Mathlib.Data.List.AList

/-! The structural database: the graphs, their agents and tools, which agents are whose
children, the current version of each file, and which version cites which. No row of an
agent is ever deleted. -/

namespace Coral

/-- Git's address of a file's bytes. A text is taken as it is. -/
structure BlobSha where
  hex : String
deriving DecidableEq

/-- A row of `graphs`. -/
structure GraphRecord where
  id : GraphId
  name : String
  metadata : Json
deriving DecidableEq

structure AgentRecord where
  id : AgentId
  graphId : GraphId
  name : String
deriving DecidableEq

/-- A row of `tools`. `defId` is the name it has in the graph's own file. -/
structure ToolRecord where
  graphId : GraphId
  defId : String
  kind : String
  command : Option String
  args : Json
  envRefs : Json
deriving DecidableEq

/-- A row of `citations`, by the six columns that it is unique in. -/
structure Citation where
  citingAgentId : AgentId
  citingFilepath : String
  citingBlobSha : BlobSha
  citedAgentId : AgentId
  citedFilepath : String
  citedBlobSha : BlobSha
deriving DecidableEq

inductive DbError where
  | foreignKey (agentId : AgentId)
  | unknownGraph (graphId : GraphId)
  | uniqueViolation
  | unavailable
deriving DecidableEq

/-- A call that fails leaves the database as it was. An agent's row is inserted under an
id that the caller draws. -/
class StructuralDbStore (δ : Type) where
  addAgent : δ → GraphId → String → AgentId → Except DbError δ
  addEdge : δ → AgentId → AgentId → Except DbError δ
  listToolDefIdsForGraph : δ → GraphId → Except DbError (List String)
  setFileVersion : δ → AgentId → String → BlobSha → Except DbError δ
  addCitation : δ → Citation → Except DbError δ

structure StructuralDb where
  graphs : List GraphRecord
  agentRows : List AgentRecord
  edges : List (AgentId × AgentId)
  tools : List ToolRecord
  fileIndex : AList fun _ : AgentId × String => BlobSha
  citations : List Citation

namespace StructuralDb

def agents (db : StructuralDb) : List AgentId := db.agentRows.map (·.id)

def addAgent (db : StructuralDb) (graphId : GraphId) (name : String) (agentId : AgentId) : Except DbError StructuralDb :=
  if agentId ∈ db.agents then .error .uniqueViolation
  else if graphId ∉ db.graphs.map (·.id) then .error (.unknownGraph graphId)
  else .ok { db with agentRows := db.agentRows ++ [⟨agentId, graphId, name⟩] }

def addEdge (db : StructuralDb) (parent child : AgentId) : Except DbError StructuralDb :=
  if parent ∉ db.agents then .error (.foreignKey parent)
  else if child ∉ db.agents then .error (.foreignKey child)
  else if (parent, child) ∈ db.edges then .error .uniqueViolation
  else .ok { db with edges := db.edges ++ [(parent, child)] }

def listToolDefIdsForGraph (db : StructuralDb) (graphId : GraphId) : List String :=
  (db.tools.filter (·.graphId = graphId)).map (·.defId)

/-- The row is inserted, or its pointer moved in place. -/
def setFileVersion (db : StructuralDb) (agentId : AgentId) (filepath : String) (blobSha : BlobSha) :
    Except DbError StructuralDb :=
  if agentId ∈ db.agents then .ok { db with fileIndex := db.fileIndex.insert (agentId, filepath) blobSha }
  else .error (.foreignKey agentId)

/-- A row that is there already is returned as it is. -/
def addCitation (db : StructuralDb) (row : Citation) : Except DbError StructuralDb :=
  if row.citingAgentId ∉ db.agents then .error (.foreignKey row.citingAgentId)
  else if row.citedAgentId ∉ db.agents then .error (.foreignKey row.citedAgentId)
  else if row ∈ db.citations then .ok db
  else .ok { db with citations := db.citations ++ [row] }

instance : StructuralDbStore StructuralDb :=
  ⟨addAgent, addEdge, fun db graphId => .ok (db.listToolDefIdsForGraph graphId), setFileVersion, addCitation⟩

theorem addAgent_ok {db after : StructuralDb} {graphId : GraphId} {name : String} {agentId : AgentId}
    (added : db.addAgent graphId name agentId = .ok after) :
    agentId ∉ db.agents ∧ after = { db with agentRows := db.agentRows ++ [⟨agentId, graphId, name⟩] } := by
  unfold addAgent at added
  split at added
  · cases added
  · rename_i fresh
    split at added
    · cases added
    · cases added
      exact ⟨fresh, rfl⟩

theorem addAgent_fresh {db : StructuralDb} {graphId : GraphId} {agentId : AgentId} (fresh : agentId ∉ db.agents)
    (graph : graphId ∈ db.graphs.map (·.id)) (name : String) :
    db.addAgent graphId name agentId = .ok { db with agentRows := db.agentRows ++ [⟨agentId, graphId, name⟩] } := by
  unfold addAgent
  rw [if_neg fresh, if_neg (not_not.mpr graph)]

@[simp] theorem mem_agents_added {db : StructuralDb} {row : AgentRecord} {agentId : AgentId} :
    agentId ∈ ({ db with agentRows := db.agentRows ++ [row] } : StructuralDb).agents ↔ agentId ∈ db.agents ∨ agentId = row.id := by
  simp [agents]

theorem addEdge_known {db : StructuralDb} {parent child : AgentId} (above : parent ∈ db.agents) (below : child ∈ db.agents)
    (unlinked : (parent, child) ∉ db.edges) :
    db.addEdge parent child = .ok { db with edges := db.edges ++ [(parent, child)] } := by
  unfold addEdge
  rw [if_neg (not_not.mpr above), if_neg (not_not.mpr below), if_neg unlinked]

theorem addEdge_ok {db after : StructuralDb} {parent child : AgentId} (added : db.addEdge parent child = .ok after) :
    after = { db with edges := db.edges ++ [(parent, child)] } := by
  unfold addEdge at added
  split at added
  · cases added
  · split at added
    · cases added
    · split at added
      · cases added
      · cases added
        rfl

theorem setFileVersion_ok {db after : StructuralDb} {agentId : AgentId} {filepath : String} {blobSha : BlobSha}
    (indexed : db.setFileVersion agentId filepath blobSha = .ok after) :
    after = { db with fileIndex := db.fileIndex.insert (agentId, filepath) blobSha } := by
  unfold setFileVersion at indexed
  split at indexed
  · cases indexed
    rfl
  · cases indexed

theorem addCitation_ok {db after : StructuralDb} {row : Citation} (cited : db.addCitation row = .ok after) :
    after.agents = db.agents ∧ after.fileIndex = db.fileIndex ∧
      ∀ other, other ∈ after.citations ↔ other = row ∨ other ∈ db.citations := by
  unfold addCitation at cited
  split at cited
  · cases cited
  · split at cited
    · cases cited
    · split at cited
      · rename_i present
        cases cited
        refine ⟨rfl, rfl, ?_⟩
        intro other
        constructor
        · exact .inr
        · rintro (rfl | member)
          · exact present
          · exact member
      · cases cited
        refine ⟨rfl, rfl, ?_⟩
        intro other
        rw [List.mem_append, List.mem_singleton, or_comm]

end StructuralDb

end Coral

import Coral.Graph.Apply

/-! A graph's forest in depth-first order, and what the walk over it has written when it
comes to its end. The walk is one step for each agent, and a parent's step comes first. -/

namespace Coral.Yaml

mutual
/-- The subtree in depth-first order, each agent with the id of the one it is nested in. -/
def Agent.nodes (parent : Option String) : Agent → List (Option String × Agent)
  | ⟨id, mandate, tools, children⟩ => (parent, ⟨id, mandate, tools, children⟩) :: forestNodes (some id) children

def forestNodes (parent : Option String) : List Agent → List (Option String × Agent)
  | [] => []
  | agent :: agents => agent.nodes parent ++ forestNodes parent agents
end

def GraphYaml.nodes (graph : GraphYaml) : List (Option String × Agent) := forestNodes none graph.agents

namespace Proofs

def ResolvedAgent.row (graphId : GraphId) (resolved : ResolvedAgent) : AgentRecord :=
  ⟨resolved.dbAgentId, graphId, resolved.operatorId⟩

def ResolvedAgent.edge (resolved : ResolvedAgent) : Option (AgentId × AgentId) :=
  resolved.parentDbAgentId.map fun parent => (parent, resolved.dbAgentId)

/-- The parent that the walk was given is the one that the file names, and has been walked. -/
def Stands (parent : Option String) (parentDbId : Option AgentId) (walk : Walk) : Prop :=
  (parent = none ∧ parentDbId = none) ∨
    ∃ resolved ∈ walk.resolvedAgents, parent = some resolved.operatorId ∧ parentDbId = some resolved.dbAgentId

section Walk

variable {draw : Nat → Uuid} {graphId : GraphId}

/-- All that the walk does at one agent. -/
theorem walkAgent_ok {id : String} {parentDbId : Option AgentId} {walk next : Walk} {dbAgentId : AgentId}
    (walked : walkAgent draw graphId id parentDbId walk = .ok (dbAgentId, next)) :
    dbAgentId = ⟨draw walk.drawn⟩ ∧ dbAgentId ∉ walk.tx.agents ∧
      next.resolvedAgents = walk.resolvedAgents ++ [⟨id, dbAgentId, parentDbId⟩] ∧
      next.idMap = walk.idMap.insert id ⟨dbAgentId, Temporal.agentWorkflowId graphId.toString dbAgentId.toString⟩ ∧
      next.tx = { walk.tx with
        agentRows := walk.tx.agentRows ++ [⟨dbAgentId, graphId, id⟩]
        edges := walk.tx.edges ++ (parentDbId.map fun parent => (parent, dbAgentId)).toList } ∧
      walk.drawn < next.drawn ∧ next.drawn ≤ walk.drawn + 2 := by
  unfold walkAgent at walked
  simp only at walked
  split at walked
  · cases walked
  · rename_i tx added
    obtain ⟨fresh, rfl⟩ := StructuralDb.addAgent_ok added
    split at walked
    · cases walked
      exact ⟨rfl, fresh, rfl, rfl, by simp, by simp, by simp⟩
    · split at walked
      · cases walked
      · rename_i parent linked edged
        cases walked
        exact ⟨rfl, fresh, rfl, rfl, StructuralDb.addEdge_ok edged, by simp, by simp⟩

theorem Stands.mono {parent : Option String} {parentDbId : Option AgentId} {walk next : Walk}
    (stands : Stands parent parentDbId walk) (grown : walk.resolvedAgents <+: next.resolvedAgents) :
    Stands parent parentDbId next := by
  rcases stands with roots | ⟨resolved, member, named, known⟩
  · exact .inl roots
  · exact .inr ⟨resolved, grown.subset member, named, known⟩

/-- Each agent's step preserves it, with the agent added to those that have been walked. -/
def KeptByWalk (draw : Nat → Uuid) (graphId : GraphId) (holds : List (Option String × Agent) → Walk → Prop) : Prop :=
  ∀ nodes walk next parent parentDbId agent dbAgentId, holds nodes walk → Stands parent parentDbId walk →
    walkAgent draw graphId agent.id parentDbId walk = .ok (dbAgentId, next) → holds (nodes ++ [(parent, agent)]) next

variable {holds : List (Option String × Agent) → Walk → Prop}

mutual
theorem walkAgentTree_keeps (step : KeptByWalk draw graphId holds) {nodes : List (Option String × Agent)} {parent : Option String}
    {parentDbId : Option AgentId} {walk final : Walk} :
    ∀ {agent : Agent}, walkAgentTree draw graphId parentDbId walk agent = .ok final → holds nodes walk →
      Stands parent parentDbId walk →
      holds (nodes ++ agent.nodes parent) final ∧ walk.resolvedAgents <+: final.resolvedAgents
  | ⟨id, mandate, tools, children⟩, walked, held, stands => by
    unfold walkAgentTree at walked
    unfold Agent.nodes
    cases own : walkAgent draw graphId id parentDbId walk with
    | error error =>
      rw [own] at walked
      cases walked
    | ok result =>
      obtain ⟨dbAgentId, next⟩ := result
      rw [own] at walked
      obtain ⟨-, -, resolved, -⟩ := walkAgent_ok own
      have grown : walk.resolvedAgents <+: next.resolvedAgents := ⟨_, resolved.symm⟩
      have first := step nodes walk next parent parentDbId ⟨id, mandate, tools, children⟩ dbAgentId held stands own
      have below : Stands (some id) (some dbAgentId) next :=
        .inr ⟨⟨id, dbAgentId, parentDbId⟩, by rw [resolved]; simp, rfl, rfl⟩
      obtain ⟨rest, later⟩ := walkAgents_keeps step walked first below
      rw [List.append_assoc] at rest
      exact ⟨rest, grown.trans later⟩

theorem walkAgents_keeps (step : KeptByWalk draw graphId holds) {nodes : List (Option String × Agent)} {parent : Option String}
    {parentDbId : Option AgentId} {walk final : Walk} :
    ∀ {agents : List Agent}, walkAgents draw graphId parentDbId walk agents = .ok final → holds nodes walk →
      Stands parent parentDbId walk →
      holds (nodes ++ forestNodes parent agents) final ∧ walk.resolvedAgents <+: final.resolvedAgents
  | [], walked, held, _ => by
    cases walked
    unfold forestNodes
    rw [List.append_nil]
    exact ⟨held, List.prefix_rfl⟩
  | agent :: agents, walked, held, stands => by
    unfold walkAgents at walked
    unfold forestNodes
    split at walked
    · cases walked
    · rename_i next own
      obtain ⟨first, grown⟩ := walkAgentTree_keeps step own held stands
      obtain ⟨rest, later⟩ := walkAgents_keeps step walked first (stands.mono grown)
      rw [List.append_assoc] at rest
      exact ⟨rest, grown.trans later⟩
end

/-- What has been written and resolved once these agents have been walked. A child's parent
is further up in the list, and is the agent that the file nests it in. -/
structure Walked (graphId : GraphId) (start : StructuralDb) (nodes : List (Option String × Agent)) (walk : Walk) : Prop where
  names : walk.resolvedAgents.map (·.operatorId) = nodes.map (·.2.id)
  parents : ∀ (i : Nat) node resolved, nodes[i]? = some node → walk.resolvedAgents[i]? = some resolved →
    (node.1 = none ∧ resolved.parentDbAgentId = none) ∨ ∃ j < i, ∃ parent, walk.resolvedAgents[j]? = some parent ∧
      node.1 = some parent.operatorId ∧ resolved.parentDbAgentId = some parent.dbAgentId
  written : walk.tx = { start with
    agentRows := start.agentRows ++ walk.resolvedAgents.map (ResolvedAgent.row graphId)
    edges := start.edges ++ walk.resolvedAgents.filterMap ResolvedAgent.edge }
  distinct : (walk.resolvedAgents.map (·.dbAgentId)).Nodup
  fresh : ∀ resolved ∈ walk.resolvedAgents, resolved.dbAgentId ∉ start.agents
  mapped : (nodes.map (·.2.id)).Nodup → ∀ resolved ∈ walk.resolvedAgents, walk.idMap.lookup resolved.operatorId =
    some ⟨resolved.dbAgentId, Temporal.agentWorkflowId graphId.toString resolved.dbAgentId.toString⟩

theorem Walked.length {start : StructuralDb} {nodes : List (Option String × Agent)} {walk : Walk}
    (walked : Walked graphId start nodes walk) : walk.resolvedAgents.length = nodes.length := by
  simpa using congrArg List.length walked.names

theorem Walked.agents {start : StructuralDb} {nodes : List (Option String × Agent)} {walk : Walk}
    (walked : Walked graphId start nodes walk) :
    walk.tx.agents = start.agents ++ walk.resolvedAgents.map (·.dbAgentId) := by
  rw [walked.written]
  unfold StructuralDb.agents
  simp only [List.map_append, List.map_map]
  rfl

/-- The parent's place in the list of those that have been walked. -/
theorem Stands.place {parent : Option String} {parentDbId : Option AgentId} {walk : Walk}
    (stands : Stands parent parentDbId walk) :
    (parent = none ∧ parentDbId = none) ∨ ∃ j < walk.resolvedAgents.length, ∃ up, walk.resolvedAgents[j]? = some up ∧
      parent = some up.operatorId ∧ parentDbId = some up.dbAgentId := by
  rcases stands with root | ⟨up, member, named, known⟩
  · exact .inl root
  · obtain ⟨j, below, there⟩ := List.mem_iff_getElem.mp member
    exact .inr ⟨j, below, up, by rw [List.getElem?_eq_getElem below, there], named, known⟩

theorem walked_kept (start : StructuralDb) : KeptByWalk draw graphId (Walked graphId start) := by
  intro nodes walk next parent parentDbId agent dbAgentId walked stands own
  obtain ⟨rfl, unused, resolved, mapping, tx, -⟩ := walkAgent_ok own
  rw [walked.agents, List.mem_append, not_or] at unused
  have length := walked.length
  constructor
  · rw [resolved, List.map_append, List.map_append, walked.names]
    rfl
  · intro i node found at_nodes at_walk
    have held : ∀ (j : Nat) up, walk.resolvedAgents[j]? = some up → next.resolvedAgents[j]? = some up := by
      intro j up there
      rw [resolved, List.getElem?_append_left (List.getElem?_eq_some_iff.mp there).1]
      exact there
    rcases Nat.lt_or_ge i nodes.length with below | beyond
    · rw [List.getElem?_append_left below] at at_nodes
      rw [resolved, List.getElem?_append_left (by omega)] at at_walk
      rcases walked.parents i node found at_nodes at_walk with root | ⟨j, earlier, up, there, named⟩
      · exact .inl root
      · exact .inr ⟨j, earlier, up, held j up there, named⟩
    · rw [List.getElem?_append_right beyond, List.getElem?_singleton] at at_nodes
      rw [resolved, List.getElem?_append_right (by omega), List.getElem?_singleton] at at_walk
      split at at_nodes
      · split at at_walk
        · cases at_nodes
          cases at_walk
          rcases stands.place with root | ⟨j, earlier, up, there, named⟩
          · exact .inl root
          · exact .inr ⟨j, by omega, up, held j up there, named⟩
        · cases at_walk
      · cases at_nodes
  · rw [tx, walked.written, resolved]
    simp only [List.map_append, List.filterMap_append, List.append_assoc]
    cases parentDbId <;> rfl
  · rw [resolved, List.map_append]
    exact walked.distinct.append (List.nodup_singleton _) (List.disjoint_singleton.mpr unused.2)
  · rw [resolved]
    intro found member
    rcases List.mem_append.mp member with earlier | last
    · exact walked.fresh found earlier
    · rw [List.mem_singleton.mp last]
      exact unused.1
  · rw [resolved, mapping, List.map_append, List.nodup_append]
    intro parts found member
    obtain ⟨distinct, -, apart⟩ := parts
    rcases List.mem_append.mp member with earlier | last
    · have other : found.operatorId ≠ agent.id := by
        apply apart
        · rw [← walked.names]
          exact List.mem_map_of_mem earlier
        · exact List.mem_singleton.mpr rfl
      rw [AList.lookup_insert_ne other]
      exact walked.mapped distinct found earlier
    · rw [List.mem_singleton.mp last]
      exact AList.lookup_insert _

theorem walked_start (start : StructuralDb) (drawn : Nat) : Walked graphId start [] ⟨start, drawn, [], ∅⟩ where
  names := rfl
  parents := by
    intro i node resolved at_nodes
    cases at_nodes
  written := by simp
  distinct := List.nodup_nil
  fresh := by
    intro resolved member
    cases member
  mapped := by
    intro _ resolved member
    cases member

theorem insertTools_ok {tools : List Tool} {tx after : StructuralDb} (inserted : insertTools graphId tools tx = .ok after) :
    after = { tx with tools := tx.tools ++ tools.map (·.row graphId) } := by
  induction tools generalizing tx with
  | nil =>
    cases inserted
    simp
  | cons tool tools ih =>
    unfold insertTools at inserted
    split at inserted
    · cases inserted
    · rename_i middle own
      unfold StructuralDb.insertTool at own
      split at own
      · cases own
      · split at own
        · cases own
        · cases own
          rw [ih inserted]
          simp

/-- The rows of a graph, before those of its agents. -/
def GraphYaml.opening (draw : Nat → Uuid) (graph : GraphYaml) (db : StructuralDb) : StructuralDb :=
  { db with
    graphs := db.graphs ++ [⟨⟨draw 0⟩, graph.metadata.name, graph.graphMetadata⟩]
    tools := db.tools ++ graph.tools.map (·.row ⟨draw 0⟩) }

/-- What each agent's step preserves holds of a graph that has been created. -/
theorem createFromYaml_keeps {graph : GraphYaml} {db after : StructuralDb} {applied : AppliedGraph}
    {holds : List (Option String × Agent) → Walk → Prop} (step : KeptByWalk draw ⟨draw 0⟩ holds)
    (created : createFromYaml draw graph db = .ok (applied, after))
    (initial : ∀ drawn, holds [] ⟨GraphYaml.opening draw graph db, drawn, [], ∅⟩) :
    ∃ walk, holds graph.nodes walk ∧ after = walk.tx ∧
      applied = ⟨⟨draw 0⟩, graph.metadata.name, walk.resolvedAgents, walk.idMap⟩ := by
  unfold createFromYaml at created
  split at created
  · cases created
  · simp only at created
    split at created
    · cases created
    · cases created
    · rename_i tx inserted
      split at created
      · cases created
      · rename_i tooled tools
        split at created
        · cases created
        · rename_i walk walked
          cases created
          have opened : tooled = GraphYaml.opening draw graph db := by
            unfold StructuralDb.insertGraph at inserted
            split at inserted
            · cases inserted
            · cases inserted
              exact insertTools_ok tools
          rw [opened] at walked
          obtain ⟨whole, -⟩ := walkAgents_keeps step walked (initial _) (.inl ⟨rfl, rfl⟩)
          exact ⟨walk, whole, rfl, rfl⟩

/-- A graph that is created has been walked from its first agent to its last. -/
theorem createFromYaml_ok {graph : GraphYaml} {db after : StructuralDb} {applied : AppliedGraph}
    (created : createFromYaml draw graph db = .ok (applied, after)) :
    ∃ walk, Walked ⟨draw 0⟩ (GraphYaml.opening draw graph db) graph.nodes walk ∧ after = walk.tx ∧
      applied = ⟨⟨draw 0⟩, graph.metadata.name, walk.resolvedAgents, walk.idMap⟩ :=
  createFromYaml_keeps (walked_kept _) created (walked_start _)

end Walk

end Proofs

end Coral.Yaml

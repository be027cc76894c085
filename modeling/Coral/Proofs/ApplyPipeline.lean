import Coral.Proofs.AgentPrefixes
import Coral.Proofs.GraphSchema

/-! From a graph that the validator accepts to the workflows that are started for it. The
three passes over the forest agree on every agent because its id is unique. -/

namespace Coral.Yaml.Proofs

/-- What the later passes rely on. -/
structure Valid (graph : GraphYaml) : Prop where
  agents : (graph.nodes.map (·.2.id)).Nodup
  cadences : ∀ node ∈ graph.nodes, HasCadence graph.defaults node.2
  tools : (graph.tools.map (·.id)).Nodup
  triggers : ∀ trigger ∈ graph.seed.triggers, trigger.agent ∈ graph.nodes.map (·.2.id)

theorem validate_ok {graph : GraphYaml} (accepted : validate graph = .ok ()) : Valid graph := by
  have sound := validate_iff.mp accepted
  exact ⟨sound.agentIds, fun node member => (sound.agents node member).cadence, sound.toolIds,
    fun trigger member => (sound.triggers trigger member).1⟩

section Walk

variable {draw : Nat → Uuid} {graphId : GraphId} {start : StructuralDb} {first bound : Nat}

/-- The ids that are drawn are all different, and none of them is in the database. -/
structure Unused (draw : Nat → Uuid) (bound : Nat) (start : StructuralDb) : Prop where
  distinct : ∀ i < bound, ∀ j < bound, draw i = draw j → i = j
  agents : ∀ i < bound, ⟨draw i⟩ ∉ start.agents
  edges : ∀ i < bound, ∀ edge ∈ start.edges, edge.2 ≠ ⟨draw i⟩

/-- The walk so far has drawn two ids for an agent at most, and each agent has one of them. -/
structure Drawn (draw : Nat → Uuid) (graphId : GraphId) (start : StructuralDb) (first : Nat)
    (nodes : List (Option String × Agent)) (walk : Walk) : Prop where
  walked : Walked graphId start nodes walk
  drawn : ∀ resolved ∈ walk.resolvedAgents, ∃ i < walk.drawn, resolved.dbAgentId = ⟨draw i⟩
  most : walk.drawn ≤ first + 2 * nodes.length

theorem drawn_kept : KeptByWalk draw graphId (Drawn draw graphId start first) := by
  intro nodes walk next parent parentDbId agent dbAgentId held stands own
  have walked := walked_kept start nodes walk next parent parentDbId agent dbAgentId held.walked stands own
  obtain ⟨rfl, -, resolved, -, -, less, most⟩ := walkAgent_ok own
  refine ⟨walked, ?_, ?_⟩
  · rw [resolved]
    intro found member
    rcases List.mem_append.mp member with earlier | last
    · obtain ⟨i, below, same⟩ := held.drawn found earlier
      exact ⟨i, by omega, same⟩
    · rw [List.mem_singleton.mp last]
      exact ⟨walk.drawn, less, rfl⟩
  · have := held.most
    rw [List.length_append, List.length_singleton]
    omega

/-- An agent's row and edge are accepted as long as there are unused ids. -/
theorem walkAgent_total (unused : Unused draw bound start) (known : graphId ∈ start.graphs.map (·.id))
    {nodes : List (Option String × Agent)} {walk : Walk} (held : Drawn draw graphId start first nodes walk)
    {parent : Option String} {parentDbId : Option AgentId} (stands : Stands parent parentDbId walk)
    (room : walk.drawn < bound) (id : String) :
    ∃ result, walkAgent draw graphId id parentDbId walk = .ok result := by
  have other : ∀ resolved ∈ walk.resolvedAgents, resolved.dbAgentId ≠ ⟨draw walk.drawn⟩ := by
    intro resolved member same
    obtain ⟨i, below, drawn⟩ := held.drawn resolved member
    have := unused.distinct i (by omega) walk.drawn room (by simpa using drawn.symm.trans same)
    omega
  have fresh : (⟨draw walk.drawn⟩ : AgentId) ∉ walk.tx.agents := by
    rw [held.walked.agents, List.mem_append, List.mem_map]
    rintro (before | ⟨resolved, member, same⟩)
    · exact unused.agents _ room before
    · exact other resolved member same
  have graph : graphId ∈ walk.tx.graphs.map (·.id) := by
    rw [held.walked.written]
    exact known
  unfold walkAgent
  simp only [StructuralDb.addAgent_fresh fresh graph]
  rcases stands with ⟨-, rfl⟩ | ⟨up, member, -, rfl⟩
  · exact ⟨_, rfl⟩
  · have above : up.dbAgentId ∈ walk.tx.agents := by
      rw [held.walked.agents]
      exact List.mem_append_right _ (List.mem_map_of_mem member)
    have unlinked : (up.dbAgentId, (⟨draw walk.drawn⟩ : AgentId)) ∉ walk.tx.edges := by
      rw [held.walked.written, List.mem_append, List.mem_filterMap]
      rintro (before | ⟨resolved, among, edge⟩)
      · exact unused.edges _ room _ before rfl
      · obtain ⟨_, -, same⟩ := Option.map_eq_some_iff.mp edge
        exact other resolved among (congrArg Prod.snd same)
    have linked := @StructuralDb.addEdge_known
      { walk.tx with agentRows := walk.tx.agentRows ++ [⟨⟨draw walk.drawn⟩, graphId, id⟩] } up.dbAgentId ⟨draw walk.drawn⟩
      (StructuralDb.mem_agents_added.mpr (.inl above)) (StructuralDb.mem_agents_added.mpr (.inr rfl)) unlinked
    simp only [linked]
    exact ⟨_, rfl⟩

mutual
theorem walkAgentTree_total (unused : Unused draw bound start) (known : graphId ∈ start.graphs.map (·.id))
    {nodes : List (Option String × Agent)} {walk : Walk} {parent : Option String} {parentDbId : Option AgentId} :
    ∀ {agent : Agent}, Drawn draw graphId start first nodes walk → Stands parent parentDbId walk →
      first + 2 * (nodes ++ agent.nodes parent).length ≤ bound →
      ∃ final, walkAgentTree draw graphId parentDbId walk agent = .ok final
  | ⟨id, mandate, tools, children⟩, held, stands, room => by
    unfold Agent.nodes at room
    rw [List.append_cons] at room
    unfold walkAgentTree
    obtain ⟨⟨dbAgentId, next⟩, own⟩ := walkAgent_total unused known held stands (by
      have := held.most
      simp only [List.length_append, List.length_singleton] at room
      omega) id
    obtain ⟨-, -, resolved, -⟩ := walkAgent_ok own
    have below : Stands (some id) (some dbAgentId) next :=
      .inr ⟨⟨id, dbAgentId, parentDbId⟩, by rw [resolved]; simp, rfl, rfl⟩
    rw [own]
    exact walkAgents_total unused known
      (drawn_kept nodes walk next parent parentDbId ⟨id, mandate, tools, children⟩ dbAgentId held stands own) below room

theorem walkAgents_total (unused : Unused draw bound start) (known : graphId ∈ start.graphs.map (·.id))
    {nodes : List (Option String × Agent)} {walk : Walk} {parent : Option String} {parentDbId : Option AgentId} :
    ∀ {agents : List Agent}, Drawn draw graphId start first nodes walk → Stands parent parentDbId walk →
      first + 2 * (nodes ++ forestNodes parent agents).length ≤ bound →
      ∃ final, walkAgents draw graphId parentDbId walk agents = .ok final
  | [], _, _, _ => ⟨walk, by unfold walkAgents; rfl⟩
  | agent :: agents, held, stands, room => by
    unfold forestNodes at room
    rw [← List.append_assoc] at room
    unfold walkAgents
    obtain ⟨next, own⟩ := @walkAgentTree_total unused known nodes walk parent parentDbId agent held stands (by
      rw [List.length_append] at room
      omega)
    obtain ⟨kept, grown⟩ := walkAgentTree_keeps drawn_kept own held stands
    rw [own]
    exact walkAgents_total unused known kept (stands.mono grown) room
end

end Walk

section Create

variable {draw : Nat → Uuid} {graph : GraphYaml} {db : StructuralDb}

/-- One id for the graph and each of its tools, and two at most for each agent. -/
def GraphYaml.draws (graph : GraphYaml) : Nat := 1 + graph.tools.length + 2 * graph.nodes.length

/-- The graph is new to the database, and so is every id that is drawn for it. -/
structure Fresh (draw : Nat → Uuid) (graph : GraphYaml) (db : StructuralDb) : Prop where
  name : graph.metadata.name ∉ db.graphs.map (·.name)
  graphs : ⟨draw 0⟩ ∉ db.graphs.map (·.id)
  tools : ∀ row ∈ db.tools, row.graphId ≠ ⟨draw 0⟩
  unused : Unused draw (GraphYaml.draws graph) db

theorem insertTools_total {graphId : GraphId} {tools : List Tool} {tx : StructuralDb}
    (known : graphId ∈ tx.graphs.map (·.id)) (distinct : (tx.listToolDefIdsForGraph graphId ++ tools.map (·.id)).Nodup) :
    ∃ after, insertTools graphId tools tx = .ok after := by
  induction tools generalizing tx with
  | nil => exact ⟨tx, rfl⟩
  | cons tool tools ih =>
    have row : (tool.row graphId).graphId = graphId ∧ (tool.row graphId).defId = tool.id := by
      unfold Tool.row
      split <;> exact ⟨rfl, rfl⟩
    have unlisted : tool.id ∉ tx.listToolDefIdsForGraph graphId := by
      intro listed
      exact (List.nodup_append.mp distinct).2.2 _ listed _ (List.mem_cons_self) rfl
    unfold insertTools StructuralDb.insertTool
    rw [row.1, row.2, if_neg unlisted, if_neg (not_not.mpr known)]
    refine @ih { tx with tools := tx.tools ++ [tool.row graphId] } known ?_
    unfold StructuralDb.listToolDefIdsForGraph at distinct ⊢
    simpa [row.1, row.2] using distinct

theorem createFromYaml_total (valid : Valid graph) (fresh : Fresh draw graph db) :
    ∃ applied after, createFromYaml draw graph db = .ok (applied, after) := by
  unfold createFromYaml StructuralDb.insertGraph
  rw [if_neg fresh.name]
  simp only [fresh.name, fresh.graphs, or_self, if_false]
  let opened : StructuralDb := { db with graphs := db.graphs ++ [⟨⟨draw 0⟩, graph.metadata.name, graph.graphMetadata⟩] }
  have known : (⟨draw 0⟩ : GraphId) ∈ opened.graphs.map (·.id) := by simp [opened]
  have none_yet : opened.listToolDefIdsForGraph ⟨draw 0⟩ = [] := by
    unfold StructuralDb.listToolDefIdsForGraph
    rw [List.map_eq_nil_iff, List.filter_eq_nil_iff]
    intro row member same
    exact fresh.tools row member (of_decide_eq_true same)
  obtain ⟨tooled, inserted⟩ := @insertTools_total ⟨draw 0⟩ graph.tools opened known
    (by rw [none_yet]; exact valid.tools)
  rw [show insertTools ⟨draw 0⟩ graph.tools { db with
    graphs := db.graphs ++ [⟨⟨draw 0⟩, graph.metadata.name, graph.graphMetadata⟩] } = _ from inserted]
  have rows := insertTools_ok inserted
  have started : Drawn draw ⟨draw 0⟩ tooled (1 + graph.tools.length) [] ⟨tooled, 1 + graph.tools.length, [], ∅⟩ :=
    ⟨walked_start _ _, by simp, le_refl _⟩
  have unused : Unused draw (GraphYaml.draws graph) tooled := by
    rw [rows]
    exact ⟨fresh.unused.distinct, fresh.unused.agents, fresh.unused.edges⟩
  obtain ⟨walk, walked⟩ := @walkAgents_total draw ⟨draw 0⟩ tooled (1 + graph.tools.length) (GraphYaml.draws graph) unused
    (by rw [rows]; exact known) [] _ none none graph.agents started (.inl ⟨rfl, rfl⟩) (le_refl _)
  simp only [walked]
  exact ⟨_, _, rfl⟩

end Create

section Starts

mutual
/-- In the index every agent is found under its id, as long as no other one has it. -/
theorem indexAgents_lookup {out : AList fun _ : String => Agent} (parent : Option String) :
    ∀ {agent : Agent}, ((agent.nodes parent).map (·.2.id)).Nodup →
      (∀ node ∈ agent.nodes parent, (indexAgents out agent).lookup node.2.id = some node.2) ∧
        ∀ id, id ∉ (agent.nodes parent).map (·.2.id) → (indexAgents out agent).lookup id = out.lookup id
  | ⟨id, mandate, tools, children⟩, distinct => by
    unfold Agent.nodes at distinct ⊢
    unfold indexAgents
    rw [List.map_cons, List.nodup_cons] at distinct
    obtain ⟨below, kept⟩ := @indexForest_lookup (out.insert id ⟨id, mandate, tools, children⟩) (some id) children distinct.2
    constructor
    · intro node member
      rcases List.mem_cons.mp member with rfl | among
      · rw [kept id distinct.1]
        exact AList.lookup_insert _
      · exact below node among
    · intro other unlisted
      rw [List.map_cons, List.mem_cons, not_or] at unlisted
      rw [kept other unlisted.2, AList.lookup_insert_ne unlisted.1]

theorem indexForest_lookup {out : AList fun _ : String => Agent} (parent : Option String) :
    ∀ {agents : List Agent}, ((forestNodes parent agents).map (·.2.id)).Nodup →
      (∀ node ∈ forestNodes parent agents, (indexForest out agents).lookup node.2.id = some node.2) ∧
        ∀ id, id ∉ (forestNodes parent agents).map (·.2.id) → (indexForest out agents).lookup id = out.lookup id
  | [], _ => ⟨fun _ member => (List.not_mem_nil member).elim, fun _ _ => rfl⟩
  | agent :: agents, distinct => by
    unfold forestNodes at distinct ⊢
    unfold indexForest
    rw [List.map_append, List.nodup_append] at distinct
    obtain ⟨here, there, apart⟩ := distinct
    obtain ⟨own, untouched⟩ := @indexAgents_lookup out parent agent here
    obtain ⟨rest, kept⟩ := @indexForest_lookup (indexAgents out agent) parent agents there
    constructor
    · intro node member
      rcases List.mem_append.mp member with first | later
      · rw [kept]
        · exact own node first
        · intro again
          exact apart _ (List.mem_map_of_mem first) _ again rfl
      · exact rest node later
    · intro id unlisted
      rw [List.map_append, List.mem_append, not_or] at unlisted
      rw [kept id unlisted.2, untouched id unlisted.1]
end

def Cadence.period : Cadence → Option Duration
  | .every period => some period
  | .never => none

/-- The mandate that an agent is started with: its own text, model and tools, and its own
cadence or else the default. -/
structure Carries (graph : GraphYaml) (agent : Agent) (mandate : Coral.Mandate) : Prop where
  text : mandate.text = agent.mandate.text
  cadence : ∃ cadence, (agent.mandate.idlePeriod = some cadence ∨
    agent.mandate.idlePeriod = none ∧ graph.defaults.bind (·.idlePeriod) = some cadence) ∧
      mandate.idlePeriod = Cadence.period cadence
  model : mandate.model = agent.mandate.model
  tools : mandate.tools = agent.tools

theorem resolveMandate_total {graph : GraphYaml} {agent : Agent} (timed : HasCadence graph.defaults agent) :
    ∃ mandate, resolveMandate agent graph.defaults = .ok mandate ∧ Carries graph agent mandate := by
  unfold HasCadence at timed
  obtain ⟨cadence, resolved⟩ := Option.isSome_iff_exists.mp timed
  have source : agent.mandate.idlePeriod = some cadence ∨
      agent.mandate.idlePeriod = none ∧ graph.defaults.bind (·.idlePeriod) = some cadence := by
    cases own : agent.mandate.idlePeriod with
    | some inline =>
      rw [own] at resolved
      exact .inl resolved
    | none =>
      rw [own] at resolved
      exact .inr ⟨rfl, resolved⟩
  unfold resolveMandate
  rw [resolved]
  refine ⟨_, rfl, ?_⟩
  cases cadence with
  | every period => exact ⟨rfl, ⟨_, source, rfl⟩, rfl, rfl⟩
  | never => exact ⟨rfl, ⟨_, source, rfl⟩, rfl, rfl⟩

/-- The start of a resolved agent, from its ids and a mandate. -/
def startOf (graphId : GraphId) (resolved : ResolvedAgent) (mandate : Coral.Mandate) : WorkflowStart where
  workflowId := Temporal.agentWorkflowId graphId.toString resolved.dbAgentId.toString
  input := {
    cfg := ⟨⟩
    fsHandle := .forAgent graphId resolved.dbAgentId
    parentHandle := resolved.parentDbAgentId.map fun parent =>
      ⟨Temporal.agentWorkflowId graphId.toString parent.toString, Temporal.ParentRef.DEFAULT_SIGNAL⟩
    carryover := none
    mandate
    graphId
    agentId := resolved.dbAgentId
    agentName := resolved.operatorId }

/-- The start was built from the resolved agent and the mandate of the agent in the file. -/
def Built (graph : GraphYaml) (graphId : GraphId) (resolved : ResolvedAgent) (start : WorkflowStart) : Prop :=
  ∃ node ∈ graph.nodes, node.2.id = resolved.operatorId ∧ ∃ mandate, Carries graph node.2 mandate ∧
    start = startOf graphId resolved mandate

variable {graph : GraphYaml} {graphId : GraphId} {tx : StructuralDb} {walk : Walk}

/-- Every `expect` on the way from a resolved agent to its start holds. -/
theorem buildWorkflowStart_total (valid : Valid graph) (walked : Walked graphId tx graph.nodes walk)
    {resolved : ResolvedAgent} (member : resolved ∈ walk.resolvedAgents) :
    ∃ start, buildWorkflowStart graph ⟨graphId, graph.metadata.name, walk.resolvedAgents, walk.idMap⟩ resolved = .ok start ∧
      Built graph graphId resolved start := by
  have named : resolved.operatorId ∈ graph.nodes.map (·.2.id) := by
    rw [← walked.names]
    exact List.mem_map_of_mem member
  obtain ⟨node, among, same⟩ := List.mem_map.mp named
  have indexed : (indexForest ∅ graph.agents).lookup resolved.operatorId = some node.2 := by
    rw [← same]
    exact (indexForest_lookup none valid.agents).1 node among
  obtain ⟨mandate, built, carries⟩ := resolveMandate_total (valid.cadences node among)
  have mapped := walked.mapped valid.agents
  refine ⟨startOf graphId resolved mandate, ?_, node, among, same, mandate, carries, rfl⟩
  unfold buildWorkflowStart
  simp only [indexed, expect, built, mapped resolved member, bind, Except.bind]
  cases above : resolved.parentDbAgentId with
  | none => simp [startOf, above, Temporal.buildRootInput, pure, Except.pure]
  | some parentDbId =>
    obtain ⟨i, below, here⟩ := List.mem_iff_getElem.mp member
    have at_walk : walk.resolvedAgents[i]? = some resolved := by rw [List.getElem?_eq_getElem below, here]
    have at_nodes : graph.nodes[i]? = some (graph.nodes.get ⟨i, by rw [← walked.length]; exact below⟩) :=
      List.getElem?_eq_getElem _
    obtain ⟨-, root⟩ | ⟨j, -, up, there, -, known⟩ := walked.parents i _ resolved at_nodes at_walk
    · rw [above] at root
      cases root
    · rw [above, Option.some.injEq] at known
      obtain ⟨parent, found⟩ : ∃ parent, walk.resolvedAgents.find? (fun agent => decide (agent.dbAgentId = parentDbId)) =
          some parent := by
        rw [← Option.isSome_iff_exists, List.find?_isSome]
        exact ⟨up, List.mem_of_getElem? there, decide_eq_true known.symm⟩
      have at_parent : parent.dbAgentId = parentDbId := by simpa using List.find?_some found
      simp only [found, mapped parent (List.mem_of_find?_eq_some found), at_parent]
      simp [startOf, above, Temporal.buildChildInput, pure, Except.pure]

theorem mapM_related {α β ε : Type} {call : α → Except ε β} {related : α → β → Prop} {inputs : List α}
    (each : ∀ input ∈ inputs, ∃ output, call input = .ok output ∧ related input output) :
    ∃ outputs, inputs.mapM call = .ok outputs ∧ List.Forall₂ related inputs outputs := by
  induction inputs with
  | nil => exact ⟨[], rfl, .nil⟩
  | cons input inputs ih =>
    obtain ⟨output, called, first⟩ := each input List.mem_cons_self
    obtain ⟨outputs, rest, others⟩ := ih fun other member => each other (List.mem_cons_of_mem _ member)
    exact ⟨output :: outputs, by rw [List.mapM_cons, called, rest]; rfl, .cons first others⟩

theorem built_columns {agents : List ResolvedAgent} {starts : List WorkflowStart}
    (built : List.Forall₂ (Built graph graphId) agents starts) :
    starts.map (fun start => (start.input.agentName, start.input.agentId)) =
      agents.map fun resolved => (resolved.operatorId, resolved.dbAgentId) := by
  induction built with
  | nil => rfl
  | cons first _ ih =>
    obtain ⟨-, -, -, -, -, rfl⟩ := first
    rw [List.map_cons, List.map_cons, ih]
    rfl

theorem buildWorkflowStarts_total (valid : Valid graph) (walked : Walked graphId tx graph.nodes walk) :
    ∃ starts, buildWorkflowStarts graph ⟨graphId, graph.metadata.name, walk.resolvedAgents, walk.idMap⟩ = .ok starts ∧
      List.Forall₂ (Built graph graphId) walk.resolvedAgents starts :=
  mapM_related fun _ member => buildWorkflowStart_total valid walked member

/-- What the start at a place of the list owes to the agent at that place of the forest. -/
structure StartsAgent (graph : GraphYaml) (graphId : GraphId) (starts : List WorkflowStart) (i : Nat)
    (node : Option String × Agent) (start : WorkflowStart) : Prop where
  name : start.input.agentName = node.2.id
  home : start.input.graphId = graphId
  workflow : start.workflowId = Temporal.agentWorkflowId graphId.toString start.input.agentId.toString
  files : start.input.fsHandle.storagePrefix = start.workflowId
  opens : AgentFs.attach start.input.fsHandle.storagePrefix = .openForAgent graphId start.input.agentId
  carryover : start.input.carryover = none
  mandate : Carries graph node.2 start.input.mandate
  parent : (node.1 = none ∧ start.input.parentHandle = none) ∨ ∃ j < i, ∃ above, starts[j]? = some above ∧
    node.1 = some above.input.agentName ∧
      start.input.parentHandle = some ⟨above.workflowId, Temporal.ParentRef.DEFAULT_SIGNAL⟩

theorem startsAgent (valid : Valid graph) (walked : Walked graphId tx graph.nodes walk) {starts : List WorkflowStart}
    (built : List.Forall₂ (Built graph graphId) walk.resolvedAgents starts)
    {i : Nat} {node : Option String × Agent} {start : WorkflowStart} (at_nodes : graph.nodes[i]? = some node)
    (at_starts : starts[i]? = some start) : StartsAgent graph graphId starts i node start := by
  have length := built.length_eq
  have here : ∀ {j : Nat} {resolved : ResolvedAgent}, walk.resolvedAgents[j]? = some resolved →
      ∃ above, starts[j]? = some above ∧ Built graph graphId resolved above := by
    intro j resolved there
    obtain ⟨below, same⟩ := List.getElem?_eq_some_iff.mp there
    have related := built.get below (by omega)
    simp only [List.get_eq_getElem, same] at related
    exact ⟨_, List.getElem?_eq_getElem _, related⟩
  obtain ⟨below, -⟩ := List.getElem?_eq_some_iff.mp at_nodes
  have at_walk : walk.resolvedAgents[i]? = some (walk.resolvedAgents.get ⟨i, by rw [walked.length]; exact below⟩) :=
    List.getElem?_eq_getElem _
  generalize walk.resolvedAgents.get ⟨i, by rw [walked.length]; exact below⟩ = resolved at at_walk
  have called : resolved.operatorId = node.2.id := by
    have names := congrArg (fun names => names[i]?) walked.names
    simpa [at_walk, at_nodes] using names
  obtain ⟨found, again, other, member, same, mandate, carries, shape⟩ := here at_walk
  obtain rfl : found = start := Option.some.inj (again.symm.trans at_starts)
  obtain rfl : other = node :=
    List.inj_on_of_nodup_map valid.agents member (List.mem_of_getElem? at_nodes) (same.trans called)
  have parents := walked.parents i other resolved at_nodes at_walk
  subst shape
  refine ⟨called, rfl, rfl, rfl, Coral.Proofs.attach_forAgent graphId resolved.dbAgentId, rfl, carries, ?_⟩
  rcases parents with ⟨root, known⟩ | ⟨j, earlier, up, there, named, known⟩
  · exact .inl ⟨root, by rw [startOf, known]; rfl⟩
  · obtain ⟨_, at_above, _, _, _, above, _, rfl⟩ := here there
    exact .inr ⟨j, earlier, startOf graphId up above, at_above, named, by rw [startOf, known]; rfl⟩

/-- A graph that the validator accepts is mapped onto workflows, one for each agent of its
forest in depth-first order, and each trigger onto the workflow of the agent it names. -/
theorem apply_pipeline (graph : GraphYaml) (draw : Nat → Uuid) (db : StructuralDb) (accepted : validate graph = .ok ())
    (fresh : Fresh draw graph db) :
    ∃ applied after starts triggers, createFromYaml draw graph db = .ok (applied, after) ∧
      buildWorkflowStarts graph applied = .ok starts ∧ yamlSeedTriggers graph applied = .ok triggers ∧
      starts.map (·.input.agentName) = graph.nodes.map (·.2.id) ∧
      (∀ (i : Nat) node start, graph.nodes[i]? = some node → starts[i]? = some start →
        StartsAgent graph applied.graphId starts i node start) ∧
      after.agentRows = db.agentRows ++
        starts.map (fun start => ⟨start.input.agentId, applied.graphId, start.input.agentName⟩) ∧
      (starts.map (·.input.agentId)).Nodup ∧
      List.Forall₂ (fun seed trigger => trigger.trigger = .external seed.external.kind seed.external.payload ∧
        ∃ start ∈ starts, start.input.agentName = seed.agent ∧ trigger.workflowId = start.workflowId)
        graph.seed.triggers triggers := by
  have valid := validate_ok accepted
  obtain ⟨applied, after, created⟩ := createFromYaml_total valid fresh
  obtain ⟨walk, walked, rfl, rfl⟩ := createFromYaml_ok created
  obtain ⟨starts, started, built⟩ := buildWorkflowStarts_total valid walked
  have columns := built_columns built
  have names : starts.map (·.input.agentName) = walk.resolvedAgents.map (·.operatorId) := by
    have first := congrArg (List.map Prod.fst) columns
    rwa [List.map_map, List.map_map] at first
  have ids : starts.map (·.input.agentId) = walk.resolvedAgents.map (·.dbAgentId) := by
    have second := congrArg (List.map Prod.snd) columns
    rwa [List.map_map, List.map_map] at second
  obtain ⟨triggers, resolved, addressed⟩ := @mapM_related SeedTrigger ResolvedSeedTrigger GraphYamlError
    (yamlSeedTrigger ⟨⟨draw 0⟩, graph.metadata.name, walk.resolvedAgents, walk.idMap⟩)
    (fun seed trigger => trigger.trigger = .external seed.external.kind seed.external.payload ∧
      ∃ start ∈ starts, start.input.agentName = seed.agent ∧ trigger.workflowId = start.workflowId)
    graph.seed.triggers fun seed member => by
      have known := valid.triggers seed member
      rw [← walked.names] at known
      obtain ⟨resolved, among, named⟩ := List.mem_map.mp known
      obtain ⟨j, below, there⟩ := List.mem_iff_getElem.mp among
      have related := built.get below (by rw [← built.length_eq]; exact below)
      simp only [List.get_eq_getElem, there] at related
      obtain ⟨-, -, -, mandate, -, shape⟩ := related
      have mapped := walked.mapped valid.agents resolved among
      rw [named] at mapped
      refine ⟨_, by unfold yamlSeedTrigger; simp only [mapped]; rfl, rfl, startOf ⟨draw 0⟩ resolved mandate, ?_, named, rfl⟩
      rw [← shape]
      exact List.getElem_mem _
  refine ⟨_, _, starts, triggers, created, started, resolved, names.trans walked.names,
    fun i node start at_nodes at_starts => startsAgent valid walked built at_nodes at_starts, ?_, ids ▸ walked.distinct,
    addressed⟩
  rw [walked.written]
  have rows := congrArg (List.map fun column : String × AgentId => (⟨column.2, ⟨draw 0⟩, column.1⟩ : AgentRecord)) columns
  rw [List.map_map, List.map_map] at rows
  exact congrArg (db.agentRows ++ ·) rows.symm

end Starts

section Examples

private def leaf (id : String) : Agent := ⟨id, ⟨"watch", none, none⟩, [], []⟩

private def desk : GraphYaml where
  apiVersion := API_VERSION
  kind := KIND
  metadata := ⟨"desk", none⟩
  defaults := some ⟨some .never⟩
  tools := []
  agents := [⟨"editor", ⟨"edit", some (.every ⟨1⟩), none⟩, [], [leaf "writer", leaf "reader"]⟩, leaf "critic"]
  seed := ⟨[⟨"writer", "start", ⟨"go", .null⟩⟩]⟩
  policy := none

private def counting (drawn : Nat) : Uuid := ⟨BitVec.ofNat 128 drawn⟩

private def bare : StructuralDb := ⟨[], [], [], [], ∅, []⟩

theorem desk_applied : ∃ applied after starts triggers, createFromYaml counting desk bare = .ok (applied, after) ∧
    buildWorkflowStarts desk applied = .ok starts ∧ yamlSeedTriggers desk applied = .ok triggers ∧
    starts.map (·.input.agentName) = ["editor", "writer", "reader", "critic"] ∧ triggers.length = 1 := by
  have fresh : Fresh counting desk bare := by
    refine ⟨by decide, by decide, nofun, by decide, ?_, fun _ _ => nofun⟩
    intro i below known
    cases known
  obtain ⟨applied, after, starts, triggers, created, started, resolved, names, -, -, -, addressed⟩ :=
    apply_pipeline desk counting bare rfl fresh
  exact ⟨applied, after, starts, triggers, created, started, resolved, names, addressed.length_eq.symm⟩

end Examples

end Coral.Yaml.Proofs

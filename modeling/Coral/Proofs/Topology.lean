import Coral.Library.Forest
import Coral.Proofs.ApplyPipeline
import Coral.Proofs.PersistConvergence
import Coral.Temporal.FileActivities

/-! The rows of agents and the edges between them, over any run of applied graphs and of
spawned children. A graph's rows are written together; a child's row and its edge are not. -/

namespace Coral.Proofs
open Coral.Library Coral.Temporal

/-- A `SpawnChild`, or the second half of a `ReplaceChild`, whose activity has not ended. -/
structure Spawn where
  ctx : Context
  agentName : String
  mandate : Mandate
deriving DecidableEq

/-- `roots` are the agents that a file has at its top level, `started` those whose workflow
has been started, each with its graph. -/
structure Topology where
  db : StructuralDb
  roots : List AgentId
  pending : List Spawn
  started : List (GraphId × AgentId)

/-- An attempt at a child's registration: the id drawn for it, the calls that take effect in
the database before one fails, and whether the answer of the last one comes back. -/
inductive Growth where
  | apply (graph : Yaml.GraphYaml) (draw : Nat → Uuid)
  | spawn (spawn : Spawn)
  | attempt (spawn : Spawn) (childAgentId : AgentId) (calls : Nat) (answered : Bool)

namespace Spawn

def parent (spawn : Spawn) : GraphId × AgentId := (spawn.ctx.input.graphId, spawn.ctx.input.agentId)

def register (spawn : Spawn) (childAgentId : AgentId) (store : FaultyDb) : Except DbError RegisterChildOutcome × FaultyDb :=
  registerChildImpl spawn.ctx.input.graphId spawn.ctx.input.agentId spawn.agentName spawn.mandate.tools childAgentId store

/-- The workflows that the outcome of the activity has the parent start. -/
def starts (spawn : Spawn) (outcome : RegisterChildOutcome) : List (GraphId × AgentId) :=
  match spawn.ctx.answer (.registerChild spawn.agentName spawn.mandate) (.childRegistered outcome) with
  | some (.asks _ (_, effects)) => effects.filterMap fun
    | .startChild _ input => some (input.graphId, input.agentId)
    | _ => none
  | _ => []

end Spawn

def rootsOf (agents : List Yaml.ResolvedAgent) : List AgentId :=
  (agents.filter (·.parentDbAgentId.isNone)).map (·.dbAgentId)

def startsOf (graph : Yaml.GraphYaml) (applied : Yaml.AppliedGraph) : List (GraphId × AgentId) :=
  match Yaml.buildWorkflowStarts graph applied with
  | .ok starts => starts.map fun start => (start.input.graphId, start.input.agentId)
  | .error _ => []

namespace Topology

/-- A graph is applied once it is valid. An attempt that fails, or that nobody hears the end
of, is left to be retried. -/
def step (topology : Topology) : Growth → Option Topology
  | .apply graph draw =>
    match Yaml.validate graph with
    | .error _ => some topology
    | .ok () =>
      match Yaml.createFromYaml draw graph topology.db with
      | .error _ => some topology
      | .ok (applied, db) => some { topology with
          db
          roots := topology.roots ++ rootsOf applied.agents
          started := topology.started ++ startsOf graph applied }
  | .spawn spawn =>
    if spawn.parent ∈ topology.started then some { topology with pending := topology.pending ++ [spawn] } else none
  | .attempt spawn childAgentId calls answered =>
    if spawn ∈ topology.pending then
      match spawn.register childAgentId ⟨topology.db, calls⟩ with
      | (.error _, after) => some { topology with db := after.db }
      | (.ok outcome, after) =>
        if answered then some { topology with
          db := after.db
          pending := topology.pending.erase spawn
          started := topology.started ++ spawn.starts outcome }
        else some { topology with db := after.db }
    else none

/-- The id is new to the database, which defines every tool that the child is granted. -/
def Grants (topology : Topology) (spawn : Spawn) (childAgentId : AgentId) : Prop :=
  childAgentId ∉ topology.db.agents ∧
    ∀ tool ∈ spawn.mandate.tools, tool ∈ topology.db.listToolDefIdsForGraph spawn.ctx.input.graphId

instance (topology : Topology) (spawn : Spawn) (childAgentId : AgentId) : Decidable (topology.Grants spawn childAgentId) :=
  inferInstanceAs (Decidable (_ ∧ _))

/-- The database fails between the child's row and its edge. -/
def Cuts (topology : Topology) : Growth → Prop
  | .attempt spawn childAgentId calls _ => calls = 1 ∧ topology.Grants spawn childAgentId
  | _ => False

/-- The row and the edge are in the database, and nobody hears of it. -/
def Loses (topology : Topology) : Growth → Prop
  | .attempt spawn childAgentId calls answered => 2 ≤ calls ∧ answered = false ∧ topology.Grants spawn childAgentId
  | _ => False

instance (topology : Topology) : (event : Growth) → Decidable (topology.Cuts event)
  | .attempt _ _ _ _ => inferInstanceAs (Decidable (_ ∧ _))
  | .apply _ _ | .spawn _ => inferInstanceAs (Decidable False)

instance (topology : Topology) : (event : Growth) → Decidable (topology.Loses event)
  | .attempt _ _ _ _ => inferInstanceAs (Decidable (_ ∧ _ ∧ _))
  | .apply _ _ | .spawn _ => inferInstanceAs (Decidable False)

end Topology

def growth : Machine Topology Growth Unit := ⟨fun topology event => (topology.step event).map fun next => (next, [])⟩

/-- Every agent that is not a root has one incoming edge, from an agent of its own graph,
the edges are a forest, and once nothing is pending every agent's workflow has been started. -/
structure Topological (topology : Topology) : Prop where
  roots : ∀ edge ∈ topology.db.edges, edge.2 ∉ topology.roots
  parents : ∀ row ∈ topology.db.agentRows, row.id ∉ topology.roots → ∃ above ∈ topology.db.agentRows,
    above.graphId = row.graphId ∧ topology.db.edges.filter (fun edge => decide (edge.2 = row.id)) = [(above.id, row.id)]
  forest : IsForest topology.db.edges
  started : topology.pending = [] → ∀ row ∈ topology.db.agentRows, (row.graphId, row.id) ∈ topology.started

section Rows

variable {db : StructuralDb} {roots : List AgentId}

/-- What holds of the rows and the edges whether or not there is an edge for each row. -/
structure Arranged (db : StructuralDb) (roots : List AgentId) : Prop where
  distinct : db.agents.Nodup
  forest : IsForest db.edges
  kin : ∀ edge ∈ db.edges, ∃ above ∈ db.agentRows, ∃ below ∈ db.agentRows,
    edge = (above.id, below.id) ∧ above.graphId = below.graphId
  known : roots ⊆ db.agents
  apart : ∀ edge ∈ db.edges, edge.2 ∉ roots
  graphs : ∀ row ∈ db.agentRows, row.graphId ∈ db.graphs.map (·.id)

theorem Arranged.ends (arranged : Arranged db roots) {edge : AgentId × AgentId} (member : edge ∈ db.edges) :
    edge.1 ∈ db.agents ∧ edge.2 ∈ db.agents := by
  obtain ⟨above, among, below, also, rfl, -⟩ := arranged.kin edge member
  exact ⟨List.mem_map_of_mem among, List.mem_map_of_mem also⟩

theorem Arranged.row (arranged : Arranged db roots) {row : AgentRecord} (fresh : row.id ∉ db.agents)
    (graph : row.graphId ∈ db.graphs.map (·.id)) : Arranged { db with agentRows := db.agentRows ++ [row] } roots where
  distinct := by
    unfold StructuralDb.agents
    rw [List.map_append]
    exact arranged.distinct.append (List.nodup_singleton _) (List.disjoint_singleton.mpr fresh)
  forest := arranged.forest
  kin := by
    intro edge member
    obtain ⟨above, among, below, also, ends, same⟩ := arranged.kin edge member
    exact ⟨above, List.mem_append_left _ among, below, List.mem_append_left _ also, ends, same⟩
  known := fun root member => StructuralDb.mem_agents_added.mpr (.inl (arranged.known member))
  apart := arranged.apart
  graphs := List.forall_mem_append.mpr ⟨arranged.graphs, List.forall_mem_singleton.mpr graph⟩

theorem Arranged.link (arranged : Arranged db roots) {above row : AgentRecord} (up : above ∈ db.agentRows)
    (member : row ∈ db.agentRows) (same : above.graphId = row.graphId) (apart : above.id ≠ row.id)
    (unrooted : row.id ∉ roots) (bare : ∀ edge ∈ db.edges, edge.1 ≠ row.id ∧ edge.2 ≠ row.id) :
    Arranged { db with edges := db.edges ++ [(above.id, row.id)] } roots where
  distinct := arranged.distinct
  forest := arranged.forest.graft (fun edge among => (bare edge among).2) (fun edge among => (bare edge among).1) apart
  kin := List.forall_mem_append.mpr ⟨arranged.kin, List.forall_mem_singleton.mpr ⟨above, up, row, member, rfl, same⟩⟩
  known := arranged.known
  apart := List.forall_mem_append.mpr ⟨arranged.apart, List.forall_mem_singleton.mpr unrooted⟩
  graphs := arranged.graphs

theorem Arranged.root (arranged : Arranged db roots) {id : AgentId} (known : id ∈ db.agents)
    (bare : ∀ edge ∈ db.edges, edge.2 ≠ id) : Arranged db (roots ++ [id]) where
  distinct := arranged.distinct
  forest := arranged.forest
  kin := arranged.kin
  known := List.append_subset.mpr ⟨arranged.known, List.cons_subset.mpr ⟨known, List.nil_subset _⟩⟩
  apart := by
    intro edge member root
    rcases List.mem_append.mp root with earlier | last
    · exact arranged.apart edge member earlier
    · exact bare edge member (List.mem_singleton.mp last)
  graphs := arranged.graphs

/-- A new agent with the edge from its parent. -/
theorem Arranged.child (arranged : Arranged db roots) {above row : AgentRecord} (fresh : row.id ∉ db.agents)
    (up : above ∈ db.agentRows) (same : above.graphId = row.graphId) :
    Arranged { db with agentRows := db.agentRows ++ [row], edges := db.edges ++ [(above.id, row.id)] } roots := by
  have graph : row.graphId ∈ db.graphs.map (·.id) := by
    rw [← same]
    exact arranged.graphs above up
  refine (arranged.row fresh graph).link (List.mem_append_left _ up) (List.mem_append_right _ List.mem_cons_self) same ?_ ?_ ?_
  · intro again
    rw [← again] at fresh
    exact fresh (List.mem_map_of_mem up)
  · exact fun root => fresh (arranged.known root)
  · intro edge member
    obtain ⟨above, below⟩ := arranged.ends member
    exact ⟨fun again => fresh (again ▸ above), fun again => fresh (again ▸ below)⟩

end Rows

section Walk

variable {draw : Nat → Uuid} {graphId : GraphId} {start : StructuralDb} {roots : List AgentId}

theorem rootsOf_append (agents : List Yaml.ResolvedAgent) (resolved : Yaml.ResolvedAgent) :
    rootsOf (agents ++ [resolved]) = rootsOf agents ++ if resolved.parentDbAgentId = none then [resolved.dbAgentId] else [] := by
  unfold rootsOf
  rw [List.filter_append, List.map_append]
  cases above : resolved.parentDbAgentId <;> simp [above]

theorem arranged_kept : Yaml.Proofs.KeptByWalk draw graphId fun nodes walk => Yaml.Proofs.Walked graphId start nodes walk ∧
    graphId ∈ walk.tx.graphs.map (·.id) ∧ Arranged walk.tx (roots ++ rootsOf walk.resolvedAgents) := by
  intro nodes walk next parent parentDbId agent dbAgentId held stands own
  obtain ⟨walked, graph, arranged⟩ := held
  refine ⟨Yaml.Proofs.walked_kept start nodes walk next parent parentDbId agent dbAgentId walked stands own, ?_⟩
  obtain ⟨-, fresh, resolved, -, tx, -⟩ := Yaml.Proofs.walkAgent_ok own
  rw [resolved, tx, rootsOf_append]
  refine ⟨graph, ?_⟩
  rcases stands with ⟨-, rfl⟩ | ⟨up, member, -, rfl⟩
  · rw [if_pos rfl, ← List.append_assoc]
    have row := @Arranged.row walk.tx _ arranged ⟨dbAgentId, graphId, agent.id⟩ fresh graph
    simp only [Option.map_none, Option.toList_none, List.append_nil]
    exact row.root (StructuralDb.mem_agents_added.mpr (.inr rfl)) fun edge among same => fresh (same ▸ (arranged.ends among).2)
  · rw [if_neg (Option.some_ne_none _), List.append_nil]
    refine @Arranged.child walk.tx _ arranged (Yaml.Proofs.ResolvedAgent.row graphId up) ⟨dbAgentId, graphId, agent.id⟩ fresh ?_ rfl
    rw [walked.written]
    exact List.mem_append_right _ (List.mem_map_of_mem member)

theorem arranged_applied {graph : Yaml.GraphYaml} {after : StructuralDb} {applied : Yaml.AppliedGraph}
    (arranged : Arranged start roots) (created : Yaml.createFromYaml draw graph start = .ok (applied, after)) :
    Arranged after (roots ++ rootsOf applied.agents) := by
  obtain ⟨opened, arranged⟩ : (⟨draw 0⟩ : GraphId) ∈ (Yaml.Proofs.GraphYaml.opening draw graph start).graphs.map (·.id) ∧
      Arranged (Yaml.Proofs.GraphYaml.opening draw graph start) roots := by
    refine ⟨by simp [Yaml.Proofs.GraphYaml.opening], arranged.distinct, arranged.forest, arranged.kin, arranged.known,
      arranged.apart, ?_⟩
    intro row member
    unfold Yaml.Proofs.GraphYaml.opening
    rw [List.map_append]
    exact List.mem_append_left _ (arranged.graphs row member)
  obtain ⟨walk, ⟨-, -, kept⟩, rfl, rfl⟩ := Yaml.Proofs.createFromYaml_keeps arranged_kept created fun drawn =>
    ⟨Yaml.Proofs.walked_start _ _, opened, by rw [show rootsOf [] = [] from rfl, List.append_nil]; exact arranged⟩
  exact kept

end Walk

section Attempt

variable {db after : StructuralDb} {roots : List AgentId} {graphId : GraphId} {above : AgentRecord} {name : String}
  {tools : List String} {childAgentId : AgentId} {calls : Nat}

def withAgent (db : StructuralDb) (row : AgentRecord) : StructuralDb := { db with agentRows := db.agentRows ++ [row] }

theorem mem_withAgent {row : AgentRecord} {agentId : AgentId} :
    agentId ∈ (withAgent db row).agents ↔ agentId ∈ db.agents ∨ agentId = row.id := StructuralDb.mem_agents_added

/-- The outcomes of an attempt that leave the rows as they are. -/
inductive Refusing : Except DbError RegisterChildOutcome → Prop
  | failed (error : DbError) : Refusing (.error error)
  | rejected (tool : String) : Refusing (.ok (.rejectedUnknownTool tool))

theorem register_listing (tools : List String) : (if tools.isEmpty then .ok none
      else (StructuralDbStore.listToolDefIdsForGraph (⟨db, calls + 1⟩ : FaultyDb) graphId).map fun defined =>
        tools.find? fun tool => !defined.contains tool : Except DbError (Option String)) =
    .ok (tools.find? fun tool => !(db.listToolDefIdsForGraph graphId).contains tool) := by
  cases tools <;> rfl

theorem edge_added (arranged : Arranged db roots) (up : above ∈ db.agentRows) (fresh : childAgentId ∉ db.agents) :
    (withAgent db ⟨childAgentId, graphId, name⟩).addEdge above.id childAgentId = .ok { db with
      agentRows := db.agentRows ++ [⟨childAgentId, graphId, name⟩], edges := db.edges ++ [(above.id, childAgentId)] } :=
  StructuralDb.addEdge_known (mem_withAgent.mpr (.inl (List.mem_map_of_mem up))) (mem_withAgent.mpr (.inr rfl))
    fun edge => fresh (arranged.ends edge).2

private theorem granted (defined : ∀ tool ∈ tools, tool ∈ db.listToolDefIdsForGraph graphId) :
    (tools.find? fun tool => !(db.listToolDefIdsForGraph graphId).contains tool) = none := by
  rw [List.find?_eq_none]
  intro tool member
  simpa using defined tool member

/-- The database fails after the child's row. -/
theorem register_cut (arranged : Arranged db roots) (up : above ∈ db.agentRows) (graph : above.graphId = graphId)
    (fresh : childAgentId ∉ db.agents) (defined : ∀ tool ∈ tools, tool ∈ db.listToolDefIdsForGraph graphId) :
    registerChildImpl graphId above.id name tools childAgentId (⟨db, 1⟩ : FaultyDb) =
      (.error .unavailable, ⟨withAgent db ⟨childAgentId, graphId, name⟩, 0⟩) := by
  have added := StructuralDb.addAgent_fresh fresh (graph ▸ arranged.graphs above up) name
  unfold registerChildImpl
  rw [register_listing, granted defined]
  simp only [StructuralDbStore.addAgent, FaultyDb.whileUp, added]
  rfl

/-- It lasts for both inserts. -/
theorem register_whole (arranged : Arranged db roots) (up : above ∈ db.agentRows) (graph : above.graphId = graphId)
    (fresh : childAgentId ∉ db.agents) (defined : ∀ tool ∈ tools, tool ∈ db.listToolDefIdsForGraph graphId) :
    registerChildImpl graphId above.id name tools childAgentId (⟨db, calls + 2⟩ : FaultyDb) =
      (.ok (.registered childAgentId), ⟨{ db with
        agentRows := db.agentRows ++ [⟨childAgentId, graphId, name⟩]
        edges := db.edges ++ [(above.id, childAgentId)] }, calls⟩) := by
  have added := StructuralDb.addAgent_fresh fresh (graph ▸ arranged.graphs above up) name
  have edged := @edge_added _ _ graphId _ name _ arranged up fresh
  unfold registerChildImpl
  rw [register_listing, granted defined]
  simp only [StructuralDbStore.addAgent, StructuralDbStore.addEdge, FaultyDb.whileUp, added]
  unfold withAgent at edged
  simp [Except.map, edged]

/-- Any other attempt comes to nothing. -/
theorem register_refused (refused : ¬ (1 ≤ calls ∧ childAgentId ∉ db.agents ∧
      ∀ tool ∈ tools, tool ∈ db.listToolDefIdsForGraph graphId)) {parent : AgentId}
    {result : Except DbError RegisterChildOutcome} {store : FaultyDb}
    (registered : registerChildImpl graphId parent name tools childAgentId (⟨db, calls⟩ : FaultyDb) = (result, store)) :
    store.db = db ∧ Refusing result := by
  cases calls with
  | zero =>
    unfold registerChildImpl at registered
    cases tools <;> cases registered <;> exact ⟨rfl, .failed _⟩
  | succ calls =>
    unfold registerChildImpl at registered
    rw [register_listing] at registered
    split at registered
    · cases registered
      exact ⟨rfl, .failed _⟩
    · cases registered
      exact ⟨rfl, .rejected _⟩
    · rename_i known
      split at registered
      · cases registered
        exact ⟨rfl, .failed _⟩
      · rename_i added inserted
        have defined : ∀ tool ∈ tools, tool ∈ db.listToolDefIdsForGraph graphId := by
          have found := List.find?_eq_none.mp (Except.ok.inj known)
          intro tool member
          simpa using found tool member
        exact (refused ⟨by omega, (StructuralDb.addAgent_ok (FaultyDb.whileUp_ok inserted)).1, defined⟩).elim

end Attempt

section Steps

/-- An agent that is a root, or somebody's child. -/
def Placed (db : StructuralDb) (roots : List AgentId) (id : AgentId) : Prop := id ∈ roots ∨ ∃ edge ∈ db.edges, edge.2 = id

variable {graph : Yaml.GraphYaml} {draw : Nat → Uuid} {db after : StructuralDb} {applied : Yaml.AppliedGraph}

theorem built_homes {graphId : GraphId} {agents : List Yaml.ResolvedAgent} {starts : List Yaml.WorkflowStart}
    (built : List.Forall₂ (Yaml.Proofs.Built graph graphId) agents starts) :
    starts.map (fun start => (start.input.graphId, start.input.agentId)) =
      agents.map fun resolved => (graphId, resolved.dbAgentId) := by
  induction built with
  | nil => rfl
  | cons first _ ih =>
    obtain ⟨-, -, -, -, -, rfl⟩ := first
    exact congrArg _ ih

structure Applied (graph : Yaml.GraphYaml) (db after : StructuralDb) (applied : Yaml.AppliedGraph) : Prop where
  rows : after.agentRows = db.agentRows ++ applied.agents.map (Yaml.Proofs.ResolvedAgent.row applied.graphId)
  edges : after.edges = db.edges ++ applied.agents.filterMap Yaml.Proofs.ResolvedAgent.edge
  fresh : ∀ resolved ∈ applied.agents, resolved.dbAgentId ∉ db.agents
  starts : startsOf graph applied = applied.agents.map fun resolved => (applied.graphId, resolved.dbAgentId)

theorem applied_ok (accepted : Yaml.validate graph = .ok ())
    (created : Yaml.createFromYaml draw graph db = .ok (applied, after)) : Applied graph db after applied := by
  obtain ⟨walk, walked, rfl, rfl⟩ := Yaml.Proofs.createFromYaml_ok created
  obtain ⟨starts, started, built⟩ := Yaml.Proofs.buildWorkflowStarts_total (Yaml.Proofs.validate_ok accepted) walked
  refine ⟨by rw [walked.written]; rfl, by rw [walked.written]; rfl, walked.fresh, ?_⟩
  unfold startsOf
  rw [started]
  exact built_homes built

theorem Applied.placed (applied_ : Applied graph db after applied) {resolved : Yaml.ResolvedAgent}
    (member : resolved ∈ applied.agents) (roots : List AgentId) :
    Placed after (roots ++ rootsOf applied.agents) resolved.dbAgentId := by
  cases above : resolved.parentDbAgentId with
  | none =>
    refine .inl (List.mem_append_right _ (List.mem_map_of_mem (List.mem_filter.mpr ⟨member, ?_⟩)))
    rw [above]
    rfl
  | some parent =>
    refine .inr ⟨(parent, resolved.dbAgentId), ?_, rfl⟩
    rw [applied_.edges]
    exact List.mem_append_right _ (List.mem_filterMap.mpr ⟨resolved, member, by simp [Yaml.Proofs.ResolvedAgent.edge, above]⟩)

theorem Applied.placed_iff (applied_ : Applied graph db after applied) {id : AgentId} (known : id ∈ db.agents)
    (roots : List AgentId) : Placed after (roots ++ rootsOf applied.agents) id ↔ Placed db roots id := by
  unfold Placed
  rw [applied_.edges]
  constructor
  · rintro (root | ⟨edge, member, rfl⟩)
    · rcases List.mem_append.mp root with earlier | new
      · exact .inl earlier
      · obtain ⟨resolved, among, rfl⟩ := List.mem_map.mp new
        exact (applied_.fresh resolved (List.mem_filter.mp among).1 known).elim
    · rcases List.mem_append.mp member with earlier | new
      · exact .inr ⟨edge, earlier, rfl⟩
      · obtain ⟨resolved, among, made⟩ := List.mem_filterMap.mp new
        obtain ⟨_, -, rfl⟩ := Option.map_eq_some_iff.mp made
        exact (applied_.fresh resolved among known).elim
  · rintro (root | ⟨edge, member, same⟩)
    · exact .inl (List.mem_append_left _ root)
    · exact .inr ⟨edge, List.mem_append_left _ member, same⟩

variable {topology next : Topology} {event : Growth}

/-- What every run keeps, wherever it was cut. -/
structure Grounded (topology : Topology) : Prop where
  arranged : Arranged topology.db topology.roots
  recorded : ∀ agent ∈ topology.started, ∃ row ∈ topology.db.agentRows, agent = (row.graphId, row.id)
  pending : ∀ spawn ∈ topology.pending, spawn.parent ∈ topology.started

/-- The database with a child's row and the edge from its parent. -/
def Topology.grown (topology : Topology) (above : AgentRecord) (childAgentId : AgentId) (name : String) : StructuralDb :=
  { topology.db with
    agentRows := topology.db.agentRows ++ [⟨childAgentId, above.graphId, name⟩]
    edges := topology.db.edges ++ [(above.id, childAgentId)] }

/-- All that a step can do. -/
inductive Change (topology : Topology) : Growth → Topology → Prop
  | still {event : Growth} {pending : List Spawn} (uncut : ¬ topology.Cuts event) (heard : ¬ topology.Loses event)
    (kept : ∀ spawn ∈ pending, spawn ∈ topology.pending ∨ spawn.parent ∈ topology.started) :
    Change topology event { topology with pending }
  | applied {graph : Yaml.GraphYaml} {draw : Nat → Uuid} {applied : Yaml.AppliedGraph} {db : StructuralDb}
    (accepted : Yaml.validate graph = .ok ()) (created : Yaml.createFromYaml draw graph topology.db = .ok (applied, db)) :
    Change topology (.apply graph draw) { topology with
      db
      roots := topology.roots ++ rootsOf applied.agents
      started := topology.started ++ startsOf graph applied }
  | cut {spawn : Spawn} {childAgentId : AgentId} {calls : Nat} {answered : Bool} {above : AgentRecord}
    (up : above ∈ topology.db.agentRows) (parent : spawn.parent = (above.graphId, above.id))
    (fresh : childAgentId ∉ topology.db.agents) (cut : topology.Cuts (.attempt spawn childAgentId calls answered)) :
    Change topology (.attempt spawn childAgentId calls answered)
      { topology with db := withAgent topology.db ⟨childAgentId, above.graphId, spawn.agentName⟩ }
  | lost {spawn : Spawn} {childAgentId : AgentId} {calls : Nat} {answered : Bool} {above : AgentRecord}
    (up : above ∈ topology.db.agentRows) (parent : spawn.parent = (above.graphId, above.id))
    (fresh : childAgentId ∉ topology.db.agents) (lost : topology.Loses (.attempt spawn childAgentId calls answered)) :
    Change topology (.attempt spawn childAgentId calls answered)
      { topology with db := topology.grown above childAgentId spawn.agentName }
  | linked {spawn : Spawn} {childAgentId : AgentId} {calls : Nat} {above : AgentRecord}
    (up : above ∈ topology.db.agentRows) (parent : spawn.parent = (above.graphId, above.id))
    (fresh : childAgentId ∉ topology.db.agents) (twice : 2 ≤ calls) :
    Change topology (.attempt spawn childAgentId calls true) { topology with
      db := topology.grown above childAgentId spawn.agentName
      pending := topology.pending.erase spawn
      started := topology.started ++ [(above.graphId, childAgentId)] }

theorem Topology.cuts_or_loses {spawn : Spawn} {childAgentId : AgentId} {calls : Nat} {answered : Bool}
    (either : topology.Cuts (.attempt spawn childAgentId calls answered) ∨
      topology.Loses (.attempt spawn childAgentId calls answered)) :
    1 ≤ calls ∧ topology.Grants spawn childAgentId := by
  rcases either with ⟨once, grants⟩ | ⟨twice, -, grants⟩
  · exact ⟨once.ge, grants⟩
  · exact ⟨by omega, grants⟩

theorem Topology.not_cuts {spawn : Spawn} {childAgentId : AgentId} {calls : Nat} {answered : Bool} (twice : 2 ≤ calls) :
    ¬ topology.Cuts (.attempt spawn childAgentId calls answered) := by
  rintro ⟨once, -⟩
  omega

theorem Topology.Cuts.not_loses {spawn : Spawn} {childAgentId : AgentId} {calls : Nat} {answered : Bool}
    (cut : topology.Cuts (.attempt spawn childAgentId calls answered)) :
    ¬ topology.Loses (.attempt spawn childAgentId calls answered) := fun lost => Topology.not_cuts lost.1 cut

theorem Grounded.change (grounded : Grounded topology) (stepped : topology.step event = some next) :
    Change topology event next := by
  cases event with
  | apply graph draw =>
    unfold Topology.step at stepped
    simp only at stepped
    split at stepped
    · cases stepped
      exact .still id id fun spawn member => .inl member
    · rename_i accepted
      split at stepped
      · cases stepped
        exact .still id id fun spawn member => .inl member
      · rename_i applied db created
        cases stepped
        exact .applied accepted created
  | spawn spawn =>
    unfold Topology.step at stepped
    simp only at stepped
    split at stepped
    · rename_i running
      cases stepped
      refine .still id id (List.forall_mem_append.mpr ⟨fun other member => .inl member, ?_⟩)
      exact List.forall_mem_singleton.mpr (.inr running)
    · cases stepped
  | attempt spawn childAgentId calls answered =>
    unfold Topology.step at stepped
    simp only at stepped
    split at stepped
    · rename_i member
      obtain ⟨above, up, parent⟩ := grounded.recorded _ (grounded.pending spawn member)
      have graph : above.graphId = spawn.ctx.input.graphId := (congrArg Prod.fst parent).symm
      have agent : above.id = spawn.ctx.input.agentId := (congrArg Prod.snd parent).symm
      generalize registered : spawn.register childAgentId (⟨topology.db, calls⟩ : FaultyDb) = ended at stepped
      unfold Spawn.register at registered
      rw [← agent] at registered
      by_cases grants : 1 ≤ calls ∧ topology.Grants spawn childAgentId
      · obtain ⟨some_call, fresh, defined⟩ := grants
        by_cases once : calls = 1
        · rw [once, @register_cut _ topology.roots _ _ _ _ _ grounded.arranged up graph fresh defined] at registered
          subst registered
          cases stepped
          rw [← graph]
          exact .cut up parent fresh ⟨once, fresh, defined⟩
        · obtain ⟨more, rfl⟩ : ∃ more, calls = more + 2 := ⟨calls - 2, by omega⟩
          rw [@register_whole _ topology.roots _ _ _ _ _ _ grounded.arranged up graph fresh defined] at registered
          subst registered
          cases answered with
          | true =>
            cases stepped
            have linked := @Change.linked topology spawn childAgentId (more + 2) above up parent fresh (by omega)
            unfold Topology.grown at linked
            rw [graph] at linked
            exact linked
          | false =>
            cases stepped
            have lost := @Change.lost topology spawn childAgentId (more + 2) false above up parent fresh
              ⟨by omega, rfl, fresh, defined⟩
            unfold Topology.grown at lost
            rw [graph] at lost
            exact lost
      · obtain ⟨result, store⟩ := ended
        obtain ⟨same, refusing⟩ := register_refused grants registered
        have uncut : ¬ topology.Cuts (.attempt spawn childAgentId calls answered) := fun cut =>
          grants (Topology.cuts_or_loses (.inl cut))
        have heard : ¬ topology.Loses (.attempt spawn childAgentId calls answered) := fun lost =>
          grants (Topology.cuts_or_loses (.inr lost))
        cases refusing with
        | failed error =>
          simp only [same, Option.some.injEq] at stepped
          subst stepped
          exact .still uncut heard fun spawn member => .inl member
        | rejected tool =>
          cases answered with
          | true =>
            simp only [same, Spawn.starts, Context.answer, List.append_nil, if_true, Option.some.injEq] at stepped
            subst stepped
            exact .still uncut heard fun spawn member => .inl (List.mem_of_mem_erase member)
          | false =>
            simp only [same, Bool.false_eq_true, if_false, Option.some.injEq] at stepped
            subst stepped
            exact .still uncut heard fun spawn member => .inl member
    · cases stepped

theorem Grounded.fresh_bare (grounded : Grounded topology) {id : AgentId} (fresh : id ∉ topology.db.agents) :
    ¬ Placed topology.db topology.roots id := by
  rintro (root | ⟨edge, member, rfl⟩)
  · exact fresh (grounded.arranged.known root)
  · exact fresh (grounded.arranged.ends member).2

theorem placed_beside {db : StructuralDb} {roots : List AgentId} {row : AgentRecord} {parent id : AgentId}
    (known : id ∈ db.agents) (fresh : row.id ∉ db.agents) :
    Placed { db with agentRows := db.agentRows ++ [row], edges := db.edges ++ [(parent, row.id)] } roots id ↔
      Placed db roots id := by
  constructor
  · rintro (root | ⟨edge, among, rfl⟩)
    · exact .inl root
    · rcases List.mem_append.mp among with before | last
      · exact .inr ⟨edge, before, rfl⟩
      · rw [List.mem_singleton.mp last] at known
        exact (fresh known).elim
  · rintro (root | ⟨edge, among, same⟩)
    · exact .inl root
    · exact .inr ⟨edge, List.mem_append_left _ among, same⟩

theorem Grounded.unstarted (grounded : Grounded topology) {graph : GraphId} {id : AgentId}
    (fresh : id ∉ topology.db.agents) : (graph, id) ∉ topology.started := by
  intro member
  obtain ⟨row, among, same⟩ := grounded.recorded _ member
  rw [(Prod.mk.inj same).2] at fresh
  exact fresh (List.mem_map_of_mem among)

private theorem recorded_more {rows more : List AgentRecord} {started : List (GraphId × AgentId)}
    (recorded : ∀ agent ∈ started, ∃ row ∈ rows, agent = (row.graphId, row.id)) :
    ∀ agent ∈ started, ∃ row ∈ rows ++ more, agent = (row.graphId, row.id) := by
  intro agent member
  obtain ⟨row, among, same⟩ := recorded agent member
  exact ⟨row, List.mem_append_left _ among, same⟩

theorem Grounded.step (grounded : Grounded topology) (change : Change topology event next) : Grounded next := by
  cases change with
  | still uncut heard kept =>
    refine ⟨grounded.arranged, grounded.recorded, ?_⟩
    intro spawn member
    rcases kept spawn member with earlier | running
    · exact grounded.pending spawn earlier
    · exact running
  | applied accepted created =>
    have made := applied_ok accepted created
    refine ⟨arranged_applied grounded.arranged created, ?_, ?_⟩
    · intro agent member
      simp only at member ⊢
      rw [made.starts] at member
      rw [made.rows]
      rcases List.mem_append.mp member with earlier | new
      · exact recorded_more grounded.recorded agent earlier
      · obtain ⟨resolved, among, rfl⟩ := List.mem_map.mp new
        exact ⟨_, List.mem_append_right _ (List.mem_map_of_mem among), rfl⟩
    · exact fun spawn member => List.mem_append_left _ (grounded.pending spawn member)
  | @cut spawn childAgentId calls answered above up parent fresh cut =>
    exact ⟨grounded.arranged.row fresh (grounded.arranged.graphs above up), recorded_more grounded.recorded, grounded.pending⟩
  | @lost spawn childAgentId calls answered above up parent fresh lost =>
    exact ⟨@Arranged.child _ _ grounded.arranged above ⟨childAgentId, above.graphId, spawn.agentName⟩ fresh up rfl,
      recorded_more grounded.recorded, grounded.pending⟩
  | @linked spawn childAgentId calls above up parent fresh twice =>
    refine ⟨@Arranged.child _ _ grounded.arranged above ⟨childAgentId, above.graphId, spawn.agentName⟩ fresh up rfl, ?_, ?_⟩
    · intro agent member
      rcases List.mem_append.mp member with earlier | new
      · exact recorded_more grounded.recorded agent earlier
      · exact ⟨_, List.mem_append_right _ List.mem_cons_self, List.mem_singleton.mp new⟩
    · exact fun other member => List.mem_append_left _ (grounded.pending other (List.mem_of_mem_erase member))

def Linked (topology : Topology) : Prop := ∀ row ∈ topology.db.agentRows, Placed topology.db topology.roots row.id

/-- A row and its edge bring about a new place, and touch no other. -/
private theorem placed_grown {above : AgentRecord} {childAgentId : AgentId} {name : String}
    (fresh : childAgentId ∉ topology.db.agents) {row : AgentRecord} (member : row ∈ topology.db.agentRows) :
    Placed (topology.grown above childAgentId name) topology.roots row.id ↔ Placed topology.db topology.roots row.id :=
  @placed_beside topology.db topology.roots ⟨childAgentId, above.graphId, name⟩ above.id row.id
    (List.mem_map_of_mem member) fresh

private theorem linked_grown {above : AgentRecord} {childAgentId : AgentId} {name : String}
    (fresh : childAgentId ∉ topology.db.agents) {pending : List Spawn} {started : List (GraphId × AgentId)} :
    Linked { topology with db := topology.grown above childAgentId name, pending, started } ↔ Linked topology := by
  constructor
  · exact fun linked row member => (placed_grown fresh member).mp (linked row (List.mem_append_left _ member))
  · intro linked row member
    rcases List.mem_append.mp member with earlier | new
    · exact (placed_grown fresh earlier).mpr (linked row earlier)
    · rw [List.mem_singleton.mp new]
      exact .inr ⟨_, List.mem_append_right _ List.mem_cons_self, rfl⟩

/-- An agent without a place is one for good: no later step gives it one. -/
theorem Grounded.linked_iff (grounded : Grounded topology) (change : Change topology event next) :
    Linked next ↔ ¬ topology.Cuts event ∧ Linked topology := by
  cases change with
  | still uncut heard kept => exact (and_iff_right uncut).symm
  | @applied graph draw applied db accepted created =>
    have made := applied_ok accepted created
    rw [and_iff_right (show ¬ topology.Cuts (.apply graph draw) from id)]
    unfold Linked
    simp only [made.rows]
    constructor
    · intro linked row member
      rw [← made.placed_iff (List.mem_map_of_mem member)]
      exact linked row (List.mem_append_left _ member)
    · intro linked row member
      rcases List.mem_append.mp member with earlier | new
      · rw [made.placed_iff (List.mem_map_of_mem earlier)]
        exact linked row earlier
      · obtain ⟨resolved, among, rfl⟩ := List.mem_map.mp new
        exact made.placed among topology.roots
  | @cut spawn childAgentId calls answered above up parent fresh cut =>
    refine iff_of_false ?_ fun both => both.1 cut
    intro linked
    exact grounded.fresh_bare fresh (linked ⟨childAgentId, above.graphId, spawn.agentName⟩
      (List.mem_append_right _ List.mem_cons_self))
  | lost up parent fresh lost =>
    rw [and_iff_right (Topology.not_cuts lost.1)]
    exact linked_grown fresh
  | linked up parent fresh twice =>
    rw [and_iff_right (Topology.not_cuts twice)]
    exact linked_grown fresh

/-- Every agent with a place has been started. -/
def Begun (topology : Topology) : Prop :=
  ∀ row ∈ topology.db.agentRows, Placed topology.db topology.roots row.id → (row.graphId, row.id) ∈ topology.started

/-- An agent that nobody has heard of is never started: the next attempt draws another id. -/
theorem Grounded.begun_iff (grounded : Grounded topology) (change : Change topology event next) :
    Begun next ↔ ¬ topology.Loses event ∧ Begun topology := by
  cases change with
  | still uncut heard kept => exact (and_iff_right heard).symm
  | @applied graph draw applied db accepted created =>
    have made := applied_ok accepted created
    rw [and_iff_right (show ¬ topology.Loses (.apply graph draw) from id)]
    unfold Begun
    simp only [made.rows, made.starts]
    constructor
    · intro begun row member placed
      rw [← made.placed_iff (List.mem_map_of_mem member)] at placed
      rcases List.mem_append.mp (begun row (List.mem_append_left _ member) placed) with earlier | new
      · exact earlier
      · obtain ⟨resolved, among, same⟩ := List.mem_map.mp new
        have known : resolved.dbAgentId ∈ topology.db.agents := by
          rw [(Prod.mk.inj same).2]
          exact List.mem_map_of_mem member
        exact (made.fresh resolved among known).elim
    · intro begun row member placed
      rcases List.mem_append.mp member with earlier | new
      · rw [made.placed_iff (List.mem_map_of_mem earlier)] at placed
        exact List.mem_append_left _ (begun row earlier placed)
      · obtain ⟨resolved, among, rfl⟩ := List.mem_map.mp new
        exact List.mem_append_right _ (List.mem_map.mpr ⟨resolved, among, rfl⟩)
  | @cut spawn childAgentId calls answered above up parent fresh cut =>
    rw [and_iff_right cut.not_loses]
    constructor
    · exact fun begun row member => begun row (List.mem_append_left _ member)
    · intro begun row member placed
      rcases List.mem_append.mp member with earlier | new
      · exact begun row earlier placed
      · rw [List.mem_singleton.mp new] at placed
        exact (grounded.fresh_bare fresh placed).elim
  | @lost spawn childAgentId calls answered above up parent fresh lost =>
    refine iff_of_false ?_ fun both => both.1 lost
    intro begun
    apply grounded.unstarted fresh
    exact begun ⟨childAgentId, above.graphId, spawn.agentName⟩ (List.mem_append_right _ List.mem_cons_self)
      (.inr ⟨_, List.mem_append_right _ List.mem_cons_self, rfl⟩)
  | @linked spawn childAgentId calls above up parent fresh twice =>
    have heard : ¬ topology.Loses (.attempt spawn childAgentId calls true) := fun lost => Bool.noConfusion lost.2.1
    rw [and_iff_right heard]
    constructor
    · intro begun row member placed
      have started := begun row (List.mem_append_left _ member) ((placed_grown fresh member).mpr placed)
      rcases List.mem_append.mp started with earlier | new
      · exact earlier
      · have same := (Prod.mk.inj (List.mem_singleton.mp new)).2
        rw [← same] at fresh
        exact (fresh (List.mem_map_of_mem member)).elim
    · intro begun row member placed
      rcases List.mem_append.mp member with earlier | new
      · exact List.mem_append_left _ (begun row earlier ((placed_grown fresh earlier).mp placed))
      · rw [List.mem_singleton.mp new]
        exact List.mem_append_right _ (List.mem_singleton.mpr rfl)

theorem Grounded.topological_iff (grounded : Grounded topology) :
    Topological topology ↔ Linked topology ∧ (topology.pending = [] → Begun topology) := by
  constructor
  · intro topological
    refine ⟨?_, fun settled row member _ => topological.started settled row member⟩
    intro row member
    by_cases root : row.id ∈ topology.roots
    · exact .inl root
    · obtain ⟨above, -, -, only⟩ := topological.parents row member root
      have edge := (List.mem_filter.mp (only ▸ List.mem_cons_self)).1
      exact .inr ⟨(above.id, row.id), edge, rfl⟩
  · rintro ⟨linked, begun⟩
    refine ⟨grounded.arranged.apart, ?_, grounded.arranged.forest, ?_⟩
    · intro row member unrooted
      rcases linked row member with root | ⟨edge, among, same⟩
      · exact (unrooted root).elim
      · obtain ⟨above, up, below, also, rfl, kin⟩ := grounded.arranged.kin edge among
        obtain rfl : below = row := List.inj_on_of_nodup_map grounded.arranged.distinct also member same
        exact ⟨above, up, kin, filter_key_singleton grounded.arranged.forest.parents among⟩
    · exact fun settled row member => begun settled row member (linked row member)

end Steps

section Run

def Topology.empty : Topology := ⟨⟨[], [], [], [], ∅, []⟩, [], [], []⟩

theorem grounded_empty : Grounded .empty where
  arranged := {
    distinct := List.nodup_nil
    forest := isForest_nil
    kin := fun _ member => (List.not_mem_nil member).elim
    known := List.nil_subset _
    apart := fun _ member => (List.not_mem_nil member).elim
    graphs := fun _ member => (List.not_mem_nil member).elim }
  recorded := fun _ member => (List.not_mem_nil member).elim
  pending := fun _ member => (List.not_mem_nil member).elim

theorem grounded_run {start final : Topology} {events : List Growth} {outputs : List Unit} (grounded : Grounded start)
    (ran : growth.run start events = some (final, outputs)) :
    Grounded final ∧
      (Linked final ↔ growth.Along (fun topology event => ¬ topology.Cuts event) start events ∧ Linked start) ∧
      (Begun final ↔ growth.Along (fun topology event => ¬ topology.Loses event) start events ∧ Begun start) := by
  induction events generalizing start outputs with
  | nil =>
    obtain ⟨rfl, -⟩ : start = final ∧ [] = outputs := by simpa using ran
    exact ⟨grounded, (and_iff_right trivial).symm, (and_iff_right trivial).symm⟩
  | cons event events ih =>
    obtain ⟨middle, first, rest, stepped, continued, -⟩ := growth.run_cons.mp ran
    obtain ⟨next, own, same⟩ := Option.map_eq_some_iff.mp stepped
    obtain ⟨rfl, -⟩ := Prod.mk.inj same
    have change := grounded.change own
    obtain ⟨later, linked, begun⟩ := ih (grounded.step change) continued
    refine ⟨later, ?_, ?_⟩
    · rw [linked, grounded.linked_iff change, growth.along_cons stepped]
      tauto
    · rw [begun, grounded.begun_iff change, growth.along_cons stepped]
      tauto

/-- The rows are those of a forest for as long as the database does not fail between a child's
row and its edge, and once nothing is pending its agents have all been started, unless the answer
to a whole registration was lost. From there on they are not, whatever is tried. -/
theorem topological_iff_uncut {final : Topology} {events : List Growth} {outputs : List Unit}
    (ran : growth.run .empty events = some (final, outputs)) :
    Topological final ↔ growth.Along (fun topology event => ¬ topology.Cuts event) .empty events ∧
      (final.pending = [] → growth.Along (fun topology event => ¬ topology.Loses event) .empty events) := by
  obtain ⟨grounded, linked, begun⟩ := grounded_run grounded_empty ran
  rw [grounded.topological_iff, linked, begun]
  rw [and_iff_left (show Linked .empty from fun _ member => (List.not_mem_nil member).elim)]
  rw [and_iff_left (show Begun .empty from fun _ member => (List.not_mem_nil member).elim)]

end Run

section Examples

private def newsroom : Yaml.GraphYaml where
  apiVersion := Yaml.API_VERSION
  kind := Yaml.KIND
  metadata := ⟨"newsroom", none⟩
  defaults := none
  tools := []
  agents := [⟨"editor", ⟨"edit", some .never, none⟩, [], []⟩]
  seed := ⟨[⟨"editor", "start", ⟨"go", .null⟩⟩]⟩
  policy := none

private def numbered (drawn : Nat) : Uuid := ⟨BitVec.ofNat 128 drawn⟩

/-- The editor, whose id is the second that is drawn. -/
private def editing : Context where
  workflowId := "editor"
  input := buildRootInput ⟨numbered 0⟩ ⟨numbered 1⟩ "editor" (.newNever "edit" none) ⟨⟩
  state := {}

private def hiring : Spawn := ⟨editing, "writer", .newNever "write" none⟩

private def hired (attempts : List (AgentId × Nat × Bool)) : List Growth :=
  .apply newsroom numbered :: .spawn hiring ::
    attempts.map fun (childAgentId, calls, answered) => .attempt hiring childAgentId calls answered

/-- The row of the first attempt has no edge, and its workflow is never started: the retry
has drawn another id. -/
theorem cut_leaves_orphan : ∃ final outputs,
    growth.run .empty (hired [(⟨numbered 2⟩, 1, true), (⟨numbered 3⟩, 2, true)]) = some (final, outputs) ∧ final.pending = [] ∧
      ¬ Topological final ∧ final.db.agents = [⟨numbered 1⟩, ⟨numbered 2⟩, ⟨numbered 3⟩] ∧
      final.db.edges = [(⟨numbered 1⟩, ⟨numbered 3⟩)] ∧
      final.started = [(⟨numbered 0⟩, ⟨numbered 1⟩), (⟨numbered 0⟩, ⟨numbered 3⟩)] := by
  refine ⟨_, _, rfl, rfl, ?_, rfl, rfl, rfl⟩
  intro topological
  have started := topological.started rfl ⟨⟨numbered 2⟩, ⟨numbered 0⟩, "writer"⟩ (by decide)
  revert started
  decide

/-- Both inserts of the first attempt are kept and its answer is lost: the row has its edge, and
its workflow is never started. -/
example : ((growth.run .empty (hired [(⟨numbered 2⟩, 2, false), (⟨numbered 3⟩, 2, true)])).map fun (final, _) =>
    (final.db.edges, final.started)) =
      some ([(⟨numbered 1⟩, ⟨numbered 2⟩), (⟨numbered 1⟩, ⟨numbered 3⟩)],
        [(⟨numbered 0⟩, ⟨numbered 1⟩), (⟨numbered 0⟩, ⟨numbered 3⟩)]) := rfl

/-- A database that is down, one whose answer to the listing is lost, and one that is up. -/
theorem topological_newsroom : ∃ final outputs,
    growth.run .empty (hired [(⟨numbered 2⟩, 0, true), (⟨numbered 3⟩, 0, false), (⟨numbered 4⟩, 2, true)]) =
        some (final, outputs) ∧ Topological final ∧ final.pending = [] := by
  refine ⟨_, _, rfl, ?_, rfl⟩
  exact (@topological_iff_uncut _ (hired [(⟨numbered 2⟩, 0, true), (⟨numbered 3⟩, 0, false), (⟨numbered 4⟩, 2, true)])
    _ rfl).mpr (by decide)

end Examples

end Coral.Proofs

import Coral.Proofs.WorkflowInvariant
import Coral.Temporal.Graph

/-! What one step of a graph can do, and what it keeps: its workflows go on by their own
steps, new ones belong to registered agents, and no message is numbered twice. -/

namespace Coral.Temporal.Proofs
open Coral.Library

/-- An agent's id, as it is spelled in workflow ids and observations. -/
def Known (ids : List AgentId) (text : String) : Prop := ∃ id ∈ ids, id.toString = text

theorem Known.mono {ids more : List AgentId} {text : String} (known : Known ids text) (grown : ids ⊆ more) :
    Known more text := by
  obtain ⟨id, member, spelled⟩ := known
  exact ⟨id, grown member, spelled⟩

theorem isOpen_of_isClosed {run : Run} (open_ : isClosed run.await = false) : run.isOpen = true := by
  unfold Run.isOpen
  cases waiting : run.await with
  | closed outcome => rw [waiting] at open_; cases open_
  | _ => rfl

inductive Changes (graph : Graph) : GraphEvent → Graph → Prop where
  | acted {workflowId event} {run next : Run} {effects} (internal : ∀ signal, event ≠ .signal signal)
      (running : graph.workflows workflowId = some run)
      (stepped : workflow.step run event = some (next, effects))
      (launchable : ∀ effect ∈ effects, graph.launchable effect = true) :
      Changes graph (.act workflowId event) (effects.foldl Graph.perform (graph.setRun workflowId next))
  | registered (agentId : AgentId) :
      Changes graph (.register agentId) { graph with registry := graph.registry ++ [agentId] }
  | delivered {id} {message : SentSignal} {run : Run} (sent : message ∈ graph.flight)
      (found : graph.flight.find? (·.id == id) = some message)
      (running : graph.workflows message.target = some run) (open_ : isClosed run.await = false) :
      Changes graph (.deliver id) { graph.setRun message.target { run with state := run.state.receive message.signal } with
        flight := graph.flight.filter (·.id != id) }
  | lost (id : Nat) : Changes graph (.lose id) { graph with flight := graph.flight.filter (·.id != id) }

private theorem act_changes {graph after : Graph} {workflowId : String} {event : Event}
    (internal : ∀ signal, event ≠ .signal signal) (stepped : graph.act workflowId event = some after) :
    Changes graph (.act workflowId event) after := by
  unfold Graph.act at stepped
  simp only [Option.bind_eq_bind, Option.bind_eq_some_iff, Prod.exists] at stepped
  obtain ⟨run, running, next, effects, moved, launched⟩ := stepped
  split at launched
  · rename_i launchable
    cases launched
    exact .acted internal running moved (List.all_eq_true.mp launchable)
  · cases launched

private theorem deliver_changes {graph after : Graph} {id : Nat} (stepped : graph.deliver id = some after) :
    Changes graph (.deliver id) after := by
  unfold Graph.deliver at stepped
  simp only [Option.bind_eq_bind, Option.bind_eq_some_iff, Prod.exists, Option.pure_def, Option.some.injEq] at stepped
  obtain ⟨message, found, run, running, next, effects, moved, rfl⟩ := stepped
  have sent : message ∈ graph.flight := List.mem_of_find?_eq_some found
  have moved : workflow.step run (.signal message.signal) = some (next, effects) := moved
  obtain ⟨signal, same, open_, rfl, -⟩ | ⟨silent, -⟩ := step_cases moved
  · cases same
    exact .delivered sent found running open_
  · exact (silent _ rfl).elim

theorem graph_changes {graph after : Graph} {event : GraphEvent} (stepped : graph.step event = some after) :
    Changes graph event after := by
  cases event with
  | act workflowId event =>
    cases event with
    | signal signal => cases stepped
    | woken => exact act_changes (by simp) stepped
    | timerFired => exact act_changes (by simp) stepped
    | reply reply suggested => exact act_changes (by simp) stepped
  | register agentId => cases stepped; exact .registered agentId
  | deliver id => exact deliver_changes stepped
  | lose id => cases stepped; exact .lost id

/-- A later graph has the same agents, and possibly more. -/
structure Grown (before after : Graph) : Prop where
  graphId : after.graphId = before.graphId
  registry : before.registry ⊆ after.registry
  sent : before.sent ≤ after.sent

theorem Grown.refl (graph : Graph) : Grown graph graph := ⟨rfl, List.Subset.refl _, Nat.le_refl _⟩

theorem Grown.workflowId {before after : Graph} (grown : Grown before after) (agentId : String) :
    after.workflowId agentId = before.workflowId agentId := by
  unfold Graph.workflowId
  rw [grown.graphId]

/-- Every workflow runs validly, for an agent that is registered, and the messages on
their way have been numbered. -/
structure Sound (graph : Graph) : Prop where
  valid : ∀ workflowId run, graph.workflows workflowId = some run → Valid run
  registered : ∀ workflowId run, graph.workflows workflowId = some run →
    ∃ id ∈ graph.registry, workflowId = graph.workflowId id.toString
  numbered : ∀ message ∈ graph.flight, message.id < graph.sent

theorem setRun_workflows (graph : Graph) (workflowId other : String) (run : Run) :
    (graph.setRun workflowId run).workflows other = if other = workflowId then some run else graph.workflows other := by
  unfold Graph.setRun
  exact Function.update_apply graph.workflows workflowId (some run) other

theorem Sound.setRun {graph : Graph} (sound : Sound graph) {workflowId : String} {run : Run} (valid : Valid run)
    (registered : ∃ id ∈ graph.registry, workflowId = graph.workflowId id.toString) :
    Sound (graph.setRun workflowId run) := by
  refine ⟨?_, ?_, sound.numbered⟩
  · intro other current running
    rw [setRun_workflows] at running
    split at running
    · cases running; exact valid
    · exact sound.valid other current running
  · intro other current running
    rw [setRun_workflows] at running
    split at running
    · rename_i same
      rw [same]
      exact registered
    · exact sound.registered other current running

theorem Sound.send {graph : Graph} (sound : Sound graph) (target : String) (signal : Signal) :
    Sound (graph.send target signal) := by
  refine ⟨sound.valid, sound.registered, ?_⟩
  intro message member
  change message ∈ graph.flight ++ [⟨graph.sent, target, signal⟩] at member
  change message.id < graph.sent + 1
  rcases List.mem_append.mp member with old | new
  · have := sound.numbered message old
    omega
  · rw [List.mem_singleton.mp new]
    exact Nat.lt_succ_self _

private theorem perform_grown (graph : Graph) (effect : Effect) : Grown graph (graph.perform effect) := by
  unfold Graph.perform
  split
  · exact ⟨rfl, List.Subset.refl _, Nat.le_succ _⟩
  · split
    · exact ⟨rfl, List.Subset.refl _, Nat.le_refl _⟩
    · exact .refl graph
  · exact .refl graph

private theorem perform_registry (graph : Graph) (effect : Effect) :
    (graph.perform effect).registry = graph.registry := by
  unfold Graph.perform
  split
  · rfl
  · split <;> rfl
  · rfl

private theorem perform_launchable (graph : Graph) (effect other : Effect) :
    (graph.perform effect).launchable other = graph.launchable other := by
  have same : (graph.perform effect).workflowId = graph.workflowId :=
    funext fun agentId => (perform_grown graph effect).workflowId agentId
  unfold Graph.launchable
  rw [perform_registry, same]

private theorem perform_running {graph : Graph} {workflowId : String} {run : Run} (effect : Effect)
    (running : graph.workflows workflowId = some run) : (graph.perform effect).workflows workflowId = some run := by
  unfold Graph.perform
  split
  · exact running
  · rename_i target input
    split
    · rename_i absent
      rw [setRun_workflows, if_neg]
      · exact running
      · rintro rfl
        rw [running] at absent
        cases absent
    · exact running
  · exact running

private theorem perform_sound {graph : Graph} {effect : Effect} (sound : Sound graph)
    (launchable : graph.launchable effect = true) : Sound (graph.perform effect) := by
  unfold Graph.perform
  split
  · exact sound.send _ _
  · rename_i workflowId input
    split
    · obtain ⟨id, member, same⟩ := List.any_eq_true.mp launchable
      exact sound.setRun (begin_valid workflowId input) ⟨id, member, eq_of_beq same⟩
    · exact sound
  · exact sound

theorem performed_grown (graph : Graph) (effects : List Effect) : Grown graph (effects.foldl Graph.perform graph) := by
  induction effects generalizing graph with
  | nil => exact .refl graph
  | cons effect effects ih =>
    have first := perform_grown graph effect
    have later := ih (graph.perform effect)
    exact ⟨later.graphId.trans first.graphId, List.Subset.trans first.registry later.registry,
      Nat.le_trans first.sent later.sent⟩

theorem performed_running {graph : Graph} {workflowId : String} {run : Run} (effects : List Effect)
    (running : graph.workflows workflowId = some run) :
    (effects.foldl Graph.perform graph).workflows workflowId = some run := by
  induction effects generalizing graph with
  | nil => exact running
  | cons effect effects ih => exact ih (perform_running effect running)

theorem performed_sound {graph : Graph} {effects : List Effect} (sound : Sound graph)
    (launchable : ∀ effect ∈ effects, graph.launchable effect = true) :
    Sound (effects.foldl Graph.perform graph) := by
  induction effects generalizing graph with
  | nil => exact sound
  | cons effect effects ih =>
    apply ih (perform_sound sound (launchable effect List.mem_cons_self))
    intro other member
    rw [perform_launchable]
    exact launchable other (List.mem_cons_of_mem _ member)

theorem Changes.grown {graph after : Graph} {event : GraphEvent} (changes : Changes graph event after) :
    Grown graph after := by
  cases changes with
  | @acted workflowId event run next effects internal running stepped launchable =>
    have later := performed_grown (graph.setRun workflowId next) effects
    exact ⟨later.graphId, later.registry, later.sent⟩
  | registered agentId => exact ⟨rfl, List.subset_append_left _ _, Nat.le_refl _⟩
  | delivered sent found running open_ => exact ⟨rfl, List.Subset.refl _, Nat.le_refl _⟩
  | lost id => exact ⟨rfl, List.Subset.refl _, Nat.le_refl _⟩

/-- A workflow stays as it is, or takes a step of its own. -/
theorem Changes.running {graph after : Graph} {event : GraphEvent} (changes : Changes graph event after)
    {workflowId : String} {run : Run} (running : graph.workflows workflowId = some run) :
    ∃ next, after.workflows workflowId = some next ∧
      (next = run ∨
        (∃ internal effects, event = .act workflowId internal ∧ (∀ signal, internal ≠ .signal signal) ∧
          workflow.step run internal = some (next, effects)) ∨
        ∃ id message, event = .deliver id ∧ graph.flight.find? (·.id == id) = some message ∧
          message.target = workflowId ∧ isClosed run.await = false ∧
          next = { run with state := run.state.receive message.signal }) := by
  cases changes with
  | @acted acting internal current next effects silent here stepped launchable =>
    by_cases same : workflowId = acting
    · subst same
      have agree : run = current := Option.some.inj (running.symm.trans here)
      subst agree
      refine ⟨next, performed_running effects ?_, .inr (.inl ⟨internal, effects, rfl, silent, stepped⟩)⟩
      rw [setRun_workflows, if_pos rfl]
    · refine ⟨run, performed_running effects ?_, .inl rfl⟩
      rw [setRun_workflows, if_neg same]
      exact running
  | registered agentId => exact ⟨run, running, .inl rfl⟩
  | @delivered id message current sent found here open_ =>
    by_cases same : workflowId = message.target
    · subst same
      have agree : run = current := Option.some.inj (running.symm.trans here)
      subst agree
      refine ⟨_, ?_, .inr (.inr ⟨id, message, rfl, found, rfl, open_, rfl⟩)⟩
      exact (setRun_workflows graph _ _ _).trans (if_pos rfl)
    · refine ⟨run, ?_, .inl rfl⟩
      exact (setRun_workflows graph _ _ _).trans ((if_neg same).trans running)
  | lost id => exact ⟨run, running, .inl rfl⟩

theorem Changes.sound {graph after : Graph} {event : GraphEvent} (changes : Changes graph event after)
    (sound : Sound graph) : Sound after := by
  cases changes with
  | @acted workflowId event run next effects internal running stepped launchable =>
    exact performed_sound (sound.setRun ((sound.valid _ _ running).step stepped) (sound.registered _ _ running))
      launchable
  | registered agentId =>
    refine ⟨sound.valid, ?_, sound.numbered⟩
    intro workflowId run running
    obtain ⟨id, member, same⟩ := sound.registered workflowId run running
    exact ⟨id, List.mem_append_left _ member, same⟩
  | @delivered id message run sent found running open_ =>
    have received := sound.setRun ((sound.valid _ _ running).receive message.signal) (sound.registered _ _ running)
    exact ⟨received.valid, received.registered, fun other member => sound.numbered other (List.mem_filter.mp member).1⟩
  | lost id =>
    exact ⟨sound.valid, sound.registered, fun other member => sound.numbered other (List.mem_filter.mp member).1⟩

theorem start_sound (graphId : GraphId) (inputs : List AgentInput) : Sound (Graph.start graphId inputs) := by
  unfold Graph.start
  have empty : Sound ⟨graphId, [], fun _ => none, [], 0⟩ := by
    refine ⟨?_, ?_, ?_⟩
    · intro workflowId run running; cases running
    · intro workflowId run running; cases running
    · intro message member; cases member
  generalize (⟨graphId, [], fun _ => none, [], 0⟩ : Graph) = graph at empty
  induction inputs generalizing graph with
  | nil => exact empty
  | cons input inputs ih =>
    apply ih
    have registers : Changes graph _ _ := .registered input.agentId
    have known : graph.workflowId input.agentId.toString =
        { graph with registry := graph.registry ++ [input.agentId] }.workflowId input.agentId.toString :=
      (registers.grown.workflowId _).symm
    exact (registers.sound empty).setRun (begin_valid _ _)
      ⟨input.agentId, List.mem_append_right _ (List.mem_singleton_self _), known⟩

end Coral.Temporal.Proofs

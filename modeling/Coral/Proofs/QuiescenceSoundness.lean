import Coral.Proofs.DigestRows

/-! When the reaper's verdict can be trusted: in every run whose sweeps see all that the
digest is meant to see. An agent that was spawned and closed between two reads is not
seen, and its last signal may still be on its way. -/

namespace Coral.Worker.Proofs
open Coral.Library Coral.Temporal Coral.Temporal.Proofs

def lastDigest (reaper : Reaper) : Option (List DigestRow) := reaper.tracker.bind (·.lastDigest)

/-- The agent a sweep is at, with its workflow. -/
def reading (system : System) : Option (AgentId × Run) := do
  let sweep ← system.reaper.sweep
  let id ← sweep.remaining.head?
  let run ← system.graph.workflows (system.graph.workflowId id.toString)
  return (id, run)

/-- Within a window no agent is found closed that the window's first sweep did not list, no
agent is read that has been asked to retire, and every signal is counted. -/
def Attended (system : System) : SystemEvent → Prop
  | .graph event => Visible system.graph event = true
  | .describe => (reading system).all (fun (id, run) => run.isOpen || (lastDigest system.reaper).isNone ||
      system.reaper.window.listed.any (·.toString == id.toString)) = true
  | .query => (reading system).all (fun (_, run) => run.state.retirementRequest.isNone) = true
  | _ => True

instance (system : System) : (event : SystemEvent) → Decidable (Attended system event)
  | .graph _ | .describe | .query => inferInstanceAs (Decidable (_ = true))
  | .list _ | .giveUp | .finish _ => inferInstanceAs (Decidable True)

/-- The signals sent before the end of the window's first sweep had been received when this
sweep began. -/
def Settled (reaper : Reaper) (sweep : Sweep) : Prop := ∀ message ∈ sweep.outstanding, reaper.window.mark ≤ message.id

/-- Every live agent is parked with empty buckets, and no signal to it is on its way. -/
def AtRest (graph : Graph) : Prop :=
  ∀ workflowId run, graph.workflows workflowId = some run → run.isOpen = true →
    run.state.parked = true ∧ mailOf run.state = {} ∧ ∀ message ∈ graph.flight, message.target ≠ workflowId

/-- The sweep will not repeat the window's digest. -/
inductive Doomed (graph : Graph) (window : Window) (rows : List DigestRow) (sweep : Sweep) : Prop where
  | restless (observation : AgentObservation) (member : observation ∈ sweep.seen)
      (busy : agentQuiescent observation.snapshot = false)
  | changed (row : DigestRow) (member : row ∈ rows) (lost : LostAt graph row)
      (unseen : ∀ observation ∈ sweep.seen, observation.row ≠ row)
  | newcomer (id : AgentId) (listed : id ∈ sweep.listed) (unknown : ¬ Known window.listed id.toString)

def Gone (graph : Graph) (reaper : Reaper) (id : AgentId) : Prop :=
  (∃ run, graph.workflows (graph.workflowId id.toString) = some run ∧ run.isOpen = false) ∧
    (lastDigest reaper ≠ none → Known reaper.window.listed id.toString)

structure Swept (graph : Graph) (reaper : Reaper) (sweep : Sweep) : Prop where
  remaining : sweep.remaining ⊆ sweep.listed
  seen : ∀ observation ∈ sweep.seen, Known sweep.listed observation.agentId
  visited : ∀ id ∈ sweep.listed, id ∈ sweep.remaining ∨
    (∃ observation ∈ sweep.seen, observation.agentId = id.toString) ∨ Gone graph reaper id
  held : ∀ observation ∈ sweep.seen, agentQuiescent observation.snapshot = true →
    SteadyAt graph observation.row ∨ LostAt graph observation.row
  verdict : ∀ rows, lastDigest reaper = some rows → Settled reaper sweep →
    Quiet graph ∨ Doomed graph reaper.window rows sweep

structure Inv (system : System) : Prop where
  sound : Sound system.graph
  watched : ∀ rows, lastDigest system.reaper = some rows → Watched system.graph system.reaper.window rows
  swept : ∀ sweep, system.reaper.sweep = some sweep → Swept system.graph system.reaper sweep

theorem mem_digest {agents : List AgentObservation} {row : DigestRow} :
    row ∈ digest agents ↔ ∃ agent ∈ agents, agent.row = row := by
  unfold digest
  rw [(List.perm_insertionSort _ _).mem_iff, List.mem_map]

theorem observe_retires {tracker : GraphQuiescence} {now : Duration} {agents : List AgentObservation}
    (retires : (tracker.observe now agents).1 = .retire) :
    (∀ agent ∈ agents, agentQuiescent agent.snapshot = true) ∧ tracker.lastDigest = some (digest agents) := by
  unfold GraphQuiescence.observe at retires
  dsimp only at retires
  split at retires
  · cases retires
  · rename_i quiescent
    split at retires
    · rename_i same
      rw [Bool.not_eq_true', Bool.not_eq_false, Bool.and_eq_true, List.all_eq_true] at quiescent
      exact ⟨quiescent.2, same⟩
    · cases retires

theorem observe_digest {tracker : GraphQuiescence} {now : Duration} {agents : List AgentObservation}
    {rows : List DigestRow} (shows : (tracker.observe now agents).2.lastDigest = some rows)
    (fresh : tracker.lastDigest ≠ (tracker.observe now agents).2.lastDigest) :
    (∀ agent ∈ agents, agentQuiescent agent.snapshot = true) ∧ rows = digest agents := by
  unfold GraphQuiescence.observe at shows fresh
  dsimp only at shows fresh
  split at shows
  · cases shows
  · rename_i quiescent
    rw [if_neg quiescent] at fresh
    split at shows
    · rename_i same
      rw [if_pos same] at fresh
      exact (fresh rfl).elim
    · rw [Bool.not_eq_true', Bool.not_eq_false, Bool.and_eq_true, List.all_eq_true] at quiescent
      exact ⟨quiescent.2, (Option.some.inj shows).symm⟩

private theorem getD_lastDigest (reaper : Reaper) :
    (reaper.tracker.getD (.new reaper.config.waveMargin)).lastDigest = lastDigest reaper := by
  unfold lastDigest
  cases reaper.tracker <;> rfl

theorem Doomed.change {graph after : Graph} {event : GraphEvent} {window : Window} {rows : List DigestRow}
    {sweep : Sweep} (doomed : Doomed graph window rows sweep) (changes : Changes graph event after) :
    Doomed after window rows sweep := by
  cases doomed with
  | restless observation member busy => exact .restless observation member busy
  | changed row member lost unseen => exact .changed row member (lost.change changes) unseen
  | newcomer id listed unknown => exact .newcomer id listed unknown

theorem Doomed.same {graph : Graph} {window : Window} {rows : List DigestRow} {sweep later : Sweep}
    (doomed : Doomed graph window rows sweep) (listed : later.listed = sweep.listed) (seen : later.seen = sweep.seen) :
    Doomed graph window rows later := by
  cases doomed with
  | restless observation member busy => exact .restless observation (seen ▸ member) busy
  | changed row member lost unseen => exact .changed row member lost (seen ▸ unseen)
  | newcomer id member unknown => exact .newcomer id (listed ▸ member) unknown

/-- What is read of an agent that has lost its row is not the row. -/
theorem Doomed.read {graph : Graph} {window : Window} {rows : List DigestRow} {sweep later : Sweep} {run : Run}
    {agentId : String} (doomed : Doomed graph window rows sweep) (valid : Valid run)
    (running : graph.workflows (graph.workflowId agentId) = some run) (unasked : run.state.retirementRequest = none)
    (listed : later.listed = sweep.listed) (seen : later.seen = sweep.seen ++ [⟨agentId, run.state.snapshot⟩]) :
    Doomed graph window rows later := by
  cases doomed with
  | restless observation member busy =>
    exact .restless observation (seen ▸ List.mem_append_left _ member) busy
  | newcomer id member unknown => exact .newcomer id (listed ▸ member) unknown
  | changed row member lost unseen =>
    cases quiescent : agentQuiescent run.state.snapshot with
    | false => exact .restless ⟨agentId, run.state.snapshot⟩ (seen ▸ List.mem_append_right _ List.mem_cons_self) quiescent
    | true =>
      refine .changed row member lost ?_
      rw [seen]
      intro observation among
      rcases List.mem_append.mp among with earlier | last
      · exact unseen observation earlier
      · intro same
        rw [List.mem_singleton.mp last] at same
        apply SteadyAt.not_lost _ lost
        rw [← same]
        exact ⟨run, running, steady_of_quiescent valid agentId quiescent unasked⟩

theorem Swept.change {graph after : Graph} {event : GraphEvent} {reaper : Reaper} {sweep : Sweep}
    (swept : Swept graph reaper sweep) (changes : Changes graph event after)
    (visible : Visible graph event = true) : Swept after reaper sweep := by
  refine ⟨swept.remaining, swept.seen, ?_, ?_, ?_⟩
  · intro id listed
    rcases swept.visited id listed with later | seen | ⟨closed, known⟩
    · exact .inl later
    · exact .inr (.inl seen)
    · rw [← changes.grown.workflowId] at closed
      exact .inr (.inr ⟨closed_change changes closed, known⟩)
  · intro observation member quiescent
    rcases swept.held observation member quiescent with steady | lost
    · exact steady.change changes visible
    · exact .inr (lost.change changes)
  · intro rows shows settled
    rcases swept.verdict rows shows settled with quiet | doomed
    · exact .inl (quiet.change changes)
    · exact .inr (doomed.change changes)

/-- The agents are known to the window and all of its rows are steady, or the new sweep
will not repeat its digest. -/
theorem Watched.verdict {graph : Graph} {window : Window} {rows : List DigestRow} {sweep : Sweep}
    (watched : Watched graph window rows) (sound : Sound graph) (listed : sweep.listed = graph.registry)
    (unseen : sweep.seen = [])
    (delivered : ∀ message ∈ graph.flight, graph.isLive message.target = true → window.mark ≤ message.id) :
    Quiet graph ∨ Doomed graph window rows sweep := by
  by_cases known : ∀ id ∈ graph.registry, Known window.listed id.toString
  · by_cases steady : ∀ row ∈ rows, SteadyAt graph row
    · left
      refine ⟨fun _ _ running open_ => watched.idle steady known running open_, ?_⟩
      intro message member run running
      apply Bool.eq_false_iff.mpr
      intro open_
      have live : graph.isLive message.target = true := by
        unfold Graph.isLive
        rw [running]
        exact open_
      have early := delivered message member live
      have numbered := sound.numbered message member
      have frozen := (watched.frozen steady known).1
      omega
    · right
      simp only [not_forall] at steady
      obtain ⟨row, member, unsteady⟩ := steady
      refine .changed row member ((watched.held row member).resolve_left unsteady) ?_
      rw [unseen]
      intro observation impossible
      cases impossible
  · right
    simp only [not_forall] at known
    obtain ⟨id, member, unknown⟩ := known
    exact .newcomer id (listed ▸ member) unknown

theorem Inv.list {system : System} {reaper : Reaper} {now : Duration} (inv : Inv system)
    (stepped : system.reaper.list system.graph now = some reaper) : Inv { system with reaper } := by
  unfold Reaper.list at stepped
  split at stepped
  · cases stepped
    refine ⟨inv.sound, inv.watched, ?_⟩
    intro sweep started
    cases started
    refine ⟨List.Subset.refl _, ?_, fun id listed => .inl listed, ?_, ?_⟩
    · intro observation impossible; cases impossible
    · intro observation impossible; cases impossible
    · intro rows shows settled
      refine Watched.verdict (inv.watched rows shows) inv.sound rfl rfl ?_
      intro message member live
      exact settled message (List.mem_filter.mpr ⟨member, live⟩)
  · cases stepped

/-- Where a sweep is, when it describes or queries. -/
private theorem reading_of {system : System} {sweep : Sweep} {id : AgentId} {run : Run}
    (sweeping : system.reaper.sweep = some sweep) (next : sweep.remaining.head? = some id)
    (running : system.graph.workflows (system.graph.workflowId id.toString) = some run) :
    reading system = some (id, run) := by
  unfold reading
  simp only [sweeping, next, running, Option.bind_eq_bind, Option.bind_some, Option.pure_def]

theorem Inv.describe {system : System} {reaper : Reaper} (inv : Inv system) (attended : Attended system .describe)
    (stepped : system.reaper.describe system.graph = some reaper) : Inv { system with reaper } := by
  unfold Reaper.describe at stepped
  simp only [Option.bind_eq_bind, Option.bind_eq_some_iff] at stepped
  obtain ⟨sweep, sweeping, id, next, run, running, moved⟩ := stepped
  have swept := inv.swept sweep sweeping
  split at moved
  · cases moved
  · split at moved
    · cases moved
      refine ⟨inv.sound, inv.watched, ?_⟩
      intro current same
      cases same
      exact ⟨swept.remaining, swept.seen, swept.visited, swept.held, fun rows shows settled =>
        (swept.verdict rows shows settled).imp_right fun doomed => doomed.same rfl rfl⟩
    · rename_i closed
      cases moved
      refine ⟨inv.sound, inv.watched, ?_⟩
      intro current same
      cases same
      obtain ⟨rest, order⟩ := List.head?_eq_some_iff.mp next
      have known : lastDigest system.reaper ≠ none → Known system.reaper.window.listed id.toString := by
        intro windowed
        unfold Attended at attended
        rw [reading_of sweeping next running, Option.all_some, Bool.or_eq_true, Bool.or_eq_true] at attended
        rcases attended with (opened | none) | listed
        · exact (closed opened).elim
        · exact (windowed (Option.isNone_iff_eq_none.mp none)).elim
        · obtain ⟨other, member, same⟩ := List.any_eq_true.mp listed
          exact ⟨other, member, eq_of_beq same⟩
      refine ⟨?_, swept.seen, ?_, swept.held, ?_⟩
      · exact fun other member => swept.remaining (List.mem_of_mem_tail member)
      · intro other listed
        rcases swept.visited other listed with later | seen | gone
        · rw [order] at later
          rcases List.mem_cons.mp later with rfl | later
          · exact .inr (.inr ⟨⟨run, running, Bool.eq_false_iff.mpr closed⟩, known⟩)
          · refine .inl ?_
            rw [order]
            exact later
        · exact .inr (.inl seen)
        · exact .inr (.inr gone)
      · exact fun rows shows settled =>
          (swept.verdict rows shows settled).imp_right fun doomed => doomed.same rfl rfl

theorem Inv.query {system : System} {reaper : Reaper} (inv : Inv system) (attended : Attended system .query)
    (stepped : system.reaper.query system.graph = some reaper) : Inv { system with reaper } := by
  unfold Reaper.query at stepped
  simp only [Option.bind_eq_bind, Option.bind_eq_some_iff] at stepped
  obtain ⟨sweep, sweeping, id, next, run, running, moved⟩ := stepped
  have swept := inv.swept sweep sweeping
  have valid := inv.sound.valid _ _ running
  have unasked : run.state.retirementRequest = none := by
    unfold Attended at attended
    rw [reading_of sweeping next running, Option.all_some] at attended
    exact Option.isNone_iff_eq_none.mp attended
  split at moved
  · cases moved
    refine ⟨inv.sound, inv.watched, ?_⟩
    intro current same
    cases same
    obtain ⟨rest, order⟩ := List.head?_eq_some_iff.mp next
    refine ⟨?_, ?_, ?_, ?_, ?_⟩
    · exact fun other member => swept.remaining (List.mem_of_mem_tail member)
    · intro observation member
      rcases List.mem_append.mp member with earlier | last
      · exact swept.seen observation earlier
      · rw [List.mem_singleton.mp last]
        exact ⟨id, swept.remaining (List.mem_of_head? next), rfl⟩
    · intro other listed
      rcases swept.visited other listed with later | ⟨observation, member, same⟩ | gone
      · rw [order] at later
        rcases List.mem_cons.mp later with rfl | later
        · exact .inr (.inl ⟨_, List.mem_append_right _ List.mem_cons_self, rfl⟩)
        · refine .inl ?_
          rw [order]
          exact later
      · exact .inr (.inl ⟨observation, List.mem_append_left _ member, same⟩)
      · exact .inr (.inr gone)
    · intro observation member quiescent
      rcases List.mem_append.mp member with earlier | last
      · exact swept.held observation earlier quiescent
      · rw [List.mem_singleton.mp last] at quiescent ⊢
        exact .inl ⟨run, running, steady_of_quiescent valid id.toString quiescent unasked⟩
    · exact fun rows shows settled => (swept.verdict rows shows settled).imp_right fun doomed =>
        doomed.read valid running unasked rfl rfl
  · cases moved

/-- Once the agents of a graph have been read, every one that is open has its row. -/
private theorem Swept.row {graph : Graph} {reaper : Reaper} {sweep : Sweep} (swept : Swept graph reaper sweep)
    (finished : sweep.remaining = []) {id : AgentId} (known : Known sweep.listed id.toString) {run : Run}
    (running : graph.workflows (graph.workflowId id.toString) = some run) (open_ : run.isOpen = true) :
    ∃ observation ∈ sweep.seen, observation.agentId = id.toString := by
  obtain ⟨other, listed, same⟩ := known
  rcases swept.visited other listed with later | seen | ⟨⟨gone, there, closed⟩, -⟩
  · rw [finished] at later
    cases later
  · rw [← same]
    exact seen
  · rw [same, running] at there
    cases there
    rw [open_] at closed
    cases closed

/-- A sweep whose agents were all quiescent opens a window with its digest. -/
theorem Swept.watched {graph : Graph} {reaper : Reaper} {sweep : Sweep} (swept : Swept graph reaper sweep)
    (sound : Sound graph) (finished : sweep.remaining = [])
    (quiescent : ∀ agent ∈ sweep.seen, agentQuiescent agent.snapshot = true) :
    Watched graph ⟨graph.sent, sweep.listed⟩ (digest sweep.seen) := by
  refine ⟨?_, ?_, ?_⟩
  · intro row member
    obtain ⟨agent, among, rfl⟩ := mem_digest.mp member
    exact swept.seen agent among
  · intro row member
    obtain ⟨agent, among, rfl⟩ := mem_digest.mp member
    exact swept.held agent among (quiescent agent among)
  · intro _ known
    refine ⟨Nat.le_refl _, ?_⟩
    intro workflowId run running open_
    obtain ⟨id, registered, rfl⟩ := sound.registered workflowId run running
    obtain ⟨observation, member, same⟩ := swept.row finished (known id registered) running open_
    exact ⟨observation.row, mem_digest.mpr ⟨observation, member, rfl⟩, by rw [← same]; rfl⟩

theorem retireGraph_sound {graph : Graph} (sound : Sound graph) (agents : List AgentObservation) :
    Sound (retireGraph graph agents) := by
  unfold retireGraph
  induction agents generalizing graph with
  | nil => exact sound
  | cons agent agents ih => exact ih (sound.send _ _)

theorem Inv.finish {system next : System} {landed : List String} {verdicts : List Verdict} (inv : Inv system)
    (stepped : system.finish landed = some (next, verdicts)) : Inv next := by
  unfold System.finish at stepped
  simp only [Option.bind_eq_bind, Option.bind_eq_some_iff] at stepped
  obtain ⟨sweep, sweeping, moved⟩ := stepped
  have swept := inv.swept sweep sweeping
  split at moved
  · cases moved
  · rename_i finished
    have finished : sweep.remaining = [] := by simpa using finished
    split at moved
    · cases moved
      exact ⟨inv.sound, nofun, nofun⟩
    · split at moved
      · rename_i tracker judged
        cases moved
        refine ⟨inv.sound, ?_, nofun⟩
        intro rows shows
        change tracker.lastDigest = some rows at shows
        obtain rfl : (system.reaper.verdict sweep).2 = tracker := by rw [judged]
        dsimp only
        split
        · rename_i same
          exact inv.watched rows (same.trans shows)
        · rename_i fresh
          change lastDigest system.reaper ≠ _ at fresh
          rw [← getD_lastDigest] at fresh
          have read := observe_digest shows fresh
          obtain ⟨quiescent, rfl⟩ := read
          exact swept.watched inv.sound finished quiescent
      · cases moved
        exact ⟨retireGraph_sound inv.sound _, nofun, nofun⟩

theorem Inv.step {system next : System} {event : SystemEvent} {verdicts : List Verdict} (inv : Inv system)
    (attended : Attended system event) (stepped : graphAndReaper.step system event = some (next, verdicts)) :
    Inv next := by
  change system.step event = some (next, verdicts) at stepped
  cases event with
  | graph event =>
    obtain ⟨graph, moved, same⟩ := Option.map_eq_some_iff.mp stepped
    cases same
    have changes := graph_changes moved
    refine ⟨changes.sound inv.sound, ?_, ?_⟩
    · exact fun rows shows => (inv.watched rows shows).change changes attended
    · exact fun sweep sweeping => (inv.swept sweep sweeping).change changes attended
  | list now =>
    obtain ⟨reaper, moved, same⟩ := Option.map_eq_some_iff.mp stepped
    cases same
    exact inv.list moved
  | describe =>
    obtain ⟨reaper, moved, same⟩ := Option.map_eq_some_iff.mp stepped
    cases same
    exact inv.describe attended moved
  | query =>
    obtain ⟨reaper, moved, same⟩ := Option.map_eq_some_iff.mp stepped
    cases same
    exact inv.query attended moved
  | giveUp =>
    cases stepped
    exact ⟨inv.sound, nofun, nofun⟩
  | finish landed => exact inv.finish stepped

theorem start_inv (config : ReaperConfig) (graphId : GraphId) (inputs : List AgentInput) :
    Inv (System.start config (Graph.start graphId inputs)) :=
  ⟨start_sound graphId inputs, nofun, nofun⟩

theorem Quiet.atRest {graph : Graph} (quiet : Quiet graph) (sound : Sound graph) : AtRest graph := by
  intro workflowId run running open_
  have idle := quiet.idle workflowId run running open_
  refine ⟨?_, ?_, ?_⟩
  · rw [(sound.valid workflowId run running).parked]
    exact idle.gate
  · have unsignalled := idle.unsignalled
    simp only [AgentWorkflow.signalled, Bool.or_eq_false_iff, Bool.not_eq_false', List.isEmpty_iff] at unsignalled
    unfold mailOf
    rw [unsignalled.1.1.1, unsignalled.1.1.2, unsignalled.1.2]
  · intro message member same
    subst same
    rw [quiet.undelivered message member run running] at open_
    cases open_

/-- A sweep that repeats the window's digest has found the graph at rest. -/
theorem Inv.retires {system next : System} {landed : List String} (inv : Inv system)
    (settled : ∀ sweep, system.reaper.sweep = some sweep → Settled system.reaper sweep)
    (stepped : system.finish landed = some (next, [.retire])) : Quiet system.graph := by
  unfold System.finish at stepped
  simp only [Option.bind_eq_bind, Option.bind_eq_some_iff] at stepped
  obtain ⟨sweep, sweeping, moved⟩ := stepped
  have swept := inv.swept sweep sweeping
  split at moved
  · cases moved
  · rename_i finished
    have finished : sweep.remaining = [] := by simpa using finished
    split at moved
    · cases moved
    · split at moved
      · cases moved
      · rename_i tracker judged
        have retires : (system.reaper.verdict sweep).1 = .retire := by rw [judged]
        obtain ⟨quiescent, shows⟩ := observe_retires retires
        rw [getD_lastDigest] at shows
        refine (swept.verdict _ shows (settled sweep sweeping)).resolve_right fun doomed => ?_
        cases doomed with
        | restless observation member busy =>
          rw [quiescent observation member] at busy
          cases busy
        | changed row member lost unseen =>
          obtain ⟨observation, among, same⟩ := mem_digest.mp member
          exact unseen observation among same
        | newcomer id listed unknown =>
          rcases swept.visited id listed with later | ⟨observation, member, same⟩ | ⟨-, known⟩
          · rw [finished] at later
            cases later
          · apply unknown
            rw [← same]
            exact (inv.watched _ shows).listed observation.row (mem_digest.mpr ⟨observation, member, rfl⟩)
          · apply unknown
            apply known
            rw [shows]
            exact nofun

theorem retirement_sound (config : ReaperConfig) (graphId : GraphId) (inputs : List AgentInput)
    (events : List SystemEvent) (system next : System) (verdicts : List Verdict) (landed : List String)
    (ran : graphAndReaper.run (.start config (.start graphId inputs)) events = some (system, verdicts))
    (attended : graphAndReaper.Along Attended (.start config (.start graphId inputs)) events)
    (settled : ∀ sweep, system.reaper.sweep = some sweep → Settled system.reaper sweep)
    (retires : graphAndReaper.step system (.finish landed) = some (next, [.retire])) : AtRest system.graph := by
  have inv : Inv system := graphAndReaper.run_invariant_along Inv (start_inv config graphId inputs)
    (fun _ _ _ _ inv attended stepped => inv.step attended stepped) attended ran
  exact (inv.retires settled retires).atRest inv.sound

/-- The verdict in one sweep after a run, as far as it can be evaluated. -/
def repeats (system : System) : Bool :=
  system.reaper.sweep.all (·.outstanding.isEmpty) && (system.finish []).any (·.2 == [.retire])

theorem repeats_retires {system : System} (repeated : repeats system = true) :
    (∀ sweep, system.reaper.sweep = some sweep → Settled system.reaper sweep) ∧
      ∃ next, graphAndReaper.step system (.finish []) = some (next, [.retire]) := by
  unfold repeats at repeated
  rw [Bool.and_eq_true] at repeated
  refine ⟨?_, ?_⟩
  · intro sweep sweeping message outstanding
    rw [sweeping, Option.all_some, List.isEmpty_iff] at repeated
    rw [repeated.1] at outstanding
    cases outstanding
  · obtain ⟨⟨next, verdicts⟩, finished, retires⟩ := (Option.any_eq_true _ _).mp repeated.2
    exact ⟨next, by rw [← eq_of_beq retires]; exact finished⟩

def rootId : AgentId := ⟨⟨1⟩⟩

def helperId : AgentId := ⟨⟨2⟩⟩

def watchedGraph : GraphId := ⟨⟨0⟩⟩

def waiting : Mandate := .newNever "wait" none

def rootAgent (event : Event) : SystemEvent :=
  .graph (.act (agentWorkflowId watchedGraph.toString rootId.toString) event)

def helperAgent (event : Event) : SystemEvent :=
  .graph (.act (agentWorkflowId watchedGraph.toString helperId.toString) event)

def watchedSystem : System :=
  .start ⟨⟨1⟩, ⟨10⟩⟩ (.start watchedGraph [buildRootInput watchedGraph rootId "root" waiting ⟨⟩])

/-- The root spawns a helper, whose output wakes it when both have come to the end of a cycle. -/
def reportRun : List SystemEvent :=
  [rootAgent .timerFired, rootAgent (.reply (.seedBuilt ⟨waiting, [], {}⟩) false),
    rootAgent (.reply (.decided (.spawnChild "helper" waiting)) false), rootAgent (.reply .logged false),
    .graph (.register helperId), rootAgent (.reply (.childRegistered (.registered helperId)) false),
    rootAgent (.reply .childStarted false), .list ⟨0⟩, .describe, .query, .describe, .query, .finish [],
    rootAgent (.reply (.decided (.idle ⟨0⟩)) false), rootAgent (.reply .logged false),
    rootAgent (.reply .committed false),
    helperAgent .timerFired, helperAgent (.reply (.seedBuilt ⟨waiting, [], {}⟩) false),
    helperAgent (.reply (.decided (.writeOutput "Findings." [])) false), helperAgent (.reply .logged false),
    helperAgent (.reply (.outputPersisted (some ⟨"2d711642b726b044"⟩) (.success "wrote output")) false),
    helperAgent (.reply .signalSent false), helperAgent (.reply (.decided (.idle ⟨0⟩)) false),
    helperAgent (.reply .logged false), helperAgent (.reply .committed false), .graph (.deliver 0),
    rootAgent .woken, rootAgent (.reply (.seedBuilt ⟨waiting, [], {}⟩) false),
    rootAgent (.reply (.decided (.idle ⟨0⟩)) false), rootAgent (.reply .logged false),
    rootAgent (.reply .committed false), .list ⟨10⟩, .describe, .query, .describe, .query, .finish [],
    .list ⟨20⟩, .describe, .query, .describe, .query]

theorem retirement_sound_helper_reports : ∃ system next verdicts,
    graphAndReaper.run watchedSystem reportRun = some (system, verdicts) ∧
      graphAndReaper.step system (.finish []) = some (next, [.retire]) ∧ AtRest system.graph := by
  have evaluated : (graphAndReaper.run watchedSystem reportRun).any (fun (system, _) => repeats system) = true := by
    decide +kernel
  obtain ⟨⟨system, verdicts⟩, ran, repeated⟩ := (Option.any_eq_true _ _).mp evaluated
  obtain ⟨settled, next, retires⟩ := repeats_retires repeated
  exact ⟨system, next, verdicts, ran, retires, retirement_sound _ _ _ reportRun system next verdicts [] ran
    (by decide +kernel) settled retires⟩
/-- After the first sweep's listing the root spawns a helper and asks it to retire. The second
sweep reads the root before the helper tells it, and the helper when it has closed. -/
def helperRun : List SystemEvent :=
  [.list ⟨0⟩, rootAgent .timerFired, rootAgent (.reply (.seedBuilt ⟨waiting, [], {}⟩) false),
    rootAgent (.reply (.decided (.spawnChild "helper" waiting)) false), rootAgent (.reply .logged false),
    .graph (.register helperId), rootAgent (.reply (.childRegistered (.registered helperId)) false),
    rootAgent (.reply .childStarted false),
    rootAgent (.reply (.decided (.retireChild ⟨agentWorkflowId watchedGraph.toString helperId.toString, helperId⟩
      "done")) false),
    rootAgent (.reply .logged false), rootAgent (.reply .signalSent false),
    rootAgent (.reply (.decided (.idle ⟨0⟩)) false), rootAgent (.reply .logged false),
    rootAgent (.reply .committed false), .describe, .query, .finish [], .graph (.deliver 0), .list ⟨10⟩,
    .describe, .query, helperAgent .woken, helperAgent (.reply .retirementPersisted false),
    helperAgent (.reply .signalSent false), .describe]

/-- The helper's last signal is still on its way to the root when the graph is retired. -/
theorem helper_signal_missed : ∃ system next verdicts,
    graphAndReaper.run watchedSystem helperRun = some (system, verdicts) ∧
      (∀ sweep, system.reaper.sweep = some sweep → Settled system.reaper sweep) ∧
      graphAndReaper.step system (.finish []) = some (next, [.retire]) ∧ ¬ AtRest system.graph := by
  let root := agentWorkflowId watchedGraph.toString rootId.toString
  have evaluated : (graphAndReaper.run watchedSystem helperRun).any (fun (system, _) => repeats system &&
      (system.graph.workflows root).any Run.isOpen && system.graph.flight.any (·.target == root)) = true := by
    decide +kernel
  obtain ⟨⟨system, verdicts⟩, ran, checked⟩ := (Option.any_eq_true _ _).mp evaluated
  rw [Bool.and_eq_true, Bool.and_eq_true] at checked
  obtain ⟨⟨repeated, live⟩, sent⟩ := checked
  obtain ⟨settled, next, retires⟩ := repeats_retires repeated
  refine ⟨system, next, verdicts, ran, settled, retires, ?_⟩
  intro rest
  obtain ⟨run, running, open_⟩ := (Option.any_eq_true _ _).mp live
  obtain ⟨message, member, target⟩ := List.any_eq_true.mp sent
  exact (rest root run running open_).2.2 message member (eq_of_beq target)

end Coral.Worker.Proofs

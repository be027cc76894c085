import Coral.Proofs.AgentPrefixes
import Coral.Proofs.DigestRows
import Coral.Worker.Teardown

/-! Retiring the agents of a quiescent graph one after the other. An agent that has been
told leaves, and wakes its parent on the way; the parent has to have been told by then. -/

namespace Coral.Worker.Proofs
open Coral.Library Coral.Temporal Coral.Temporal.Proofs

/-- Neither a signal nor an activity that has failed for good. -/
def progress : Event → Bool
  | .signal _ | .reply .failed _ => false
  | _ => true

/-- The run can go on, and whatever it does next, it completes as retired for this reason. -/
inductive EndsRetired (reason : String) : Run → Prop
  | closed {run : Run} (ended : run.await = .closed (.completed (.retired reason))) : EndsRetired reason run
  | goesOn {run : Run} (moves : ∃ event, progress event = true ∧ (workflow.step run event).isSome = true)
    (later : ∀ event next effects, progress event = true → workflow.step run event = some (next, effects) →
      EndsRetired reason next) : EndsRetired reason run

structure StartsNothing (outputs : List (String × Effect)) : Prop where
  seeds : ∀ output ∈ outputs, isSeed output.2 = false
  children : ∀ output ∈ outputs, ∀ workflowId input, output.2 ≠ .startChild workflowId input

def Unfailing (events : List TeardownEvent) : Prop :=
  ∀ workflowId suggested, TeardownEvent.graph (.act workflowId (.reply .failed suggested)) ∉ events

/-- Whatever happens while these agents are told, no seed is built and no workflow started,
and once all have been told each of them ends as retired. -/
def TornDown (graph : Graph) (order : List AgentId) : Prop :=
  ∀ events final outputs, teardown.run ⟨graph, order⟩ events = some (final, outputs) →
    StartsNothing outputs ∧ (final.untold = [] → Unfailing events → ∀ id ∈ order, ∃ run,
      final.graph.workflows (final.graph.workflowId id.toString) = some run ∧ EndsRetired RETIRE_REASON run)

def ChildOf (graph : Graph) (child parent : AgentId) : Prop :=
  ∃ run handle, graph.workflows (graph.workflowId child.toString) = some run ∧ run.input.parentHandle = some handle ∧
    handle.workflowId = graph.workflowId parent.toString

/-- No agent is told before its parent. -/
def ParentsFirst (graph : Graph) (order : List AgentId) : Prop :=
  order.Pairwise fun earlier later => ¬ ChildOf graph earlier later

/-- The graph as the sweep has found it: the agents listed are those alive, all of them
quiescent and unasked, and no signal is on its way. -/
structure Quiescent (graph : Graph) (order : List AgentId) : Prop where
  sound : Sound graph
  distinct : order.Nodup
  listed : ∀ id ∈ order, ∃ run, graph.workflows (graph.workflowId id.toString) = some run ∧ run.isOpen = true
  alive : ∀ workflowId run, graph.workflows workflowId = some run → run.isOpen = true →
    (∃ id ∈ order, workflowId = graph.workflowId id.toString) ∧ agentQuiescent run.state.snapshot = true ∧
      run.state.retirementRequest = none
  still : graph.flight = []

section Runs

variable {run next : Run} {event : Event} {effects : List Effect} {reason : String}

/-- An agent that has been told, from then on. `whole` excludes that its retirement could
not be persisted. -/
inductive Retires (whole : Prop) (run : Run) : Prop
  | requested (gate : atGate run.await = true) (told : run.state.retirementRequest = some RETIRE_REASON) : Retires whole run
  | persisting (await : run.await = .persistRetirement RETIRE_REASON) : Retires whole run
  | signalling (await : run.await = .signalParent RETIRE_REASON) : Retires whole run
  | closed (ended : run.await = .closed (.completed (.retired RETIRE_REASON))) : Retires whole run
  | failed (broken : ¬ whole) (ended : run.await = .closed .failed) : Retires whole run

theorem Retires.mono {whole less : Prop} (retires : Retires whole run) (weaker : less → whole) : Retires less run := by
  cases retires with
  | requested gate told => exact .requested gate told
  | persisting await => exact .persisting await
  | signalling await => exact .signalling await
  | closed ended => exact .closed ended
  | failed broken ended => exact .failed (fun held => broken (weaker held)) ended

/-- What a retiring agent may still ask for. -/
def Leaving (run : Run) : Effect → Prop
  | .drained _ | .closed _ | .activity (.persistRetirement _ _) => True
  | .signalWorkflow target signal => ∃ handle trigger, run.input.parentHandle = some handle ∧ target = handle.workflowId ∧
      signal = .externalSignal trigger
  | _ => False

theorem leaveGate_retires {ctx : Context} (told : ctx.state.retirementRequest = some RETIRE_REASON) :
    ctx.leaveGate.1.await = .persistRetirement RETIRE_REASON ∧ ctx.leaveGate.1.input = ctx.input ∧
      ∀ run, ∀ effect ∈ ctx.leaveGate.2, Leaving run effect := by
  unfold Context.leaveGate drainBuckets
  simp only [told]
  refine ⟨rfl, rfl, ?_⟩
  intro run effect member
  rcases List.mem_cons.mp member with rfl | later
  · trivial
  · rw [List.mem_singleton.mp later]
    trivial

/-- Away from the gate a run goes on by replies alone. -/
theorem replied_of_awake (awake : atGate run.await = false) (internal : ∀ signal, event ≠ .signal signal)
    (stepped : workflow.step run event = some (next, effects)) : ∃ reply suggested, event = .reply reply suggested ∧
      run.toContext.resume suggested run.await reply = some (next, effects) := by
  change run.step event = some (next, effects) at stepped
  cases event with
  | signal signal => exact (internal signal rfl).elim
  | reply reply suggested => exact ⟨reply, suggested, rfl, stepped⟩
  | woken | timerFired =>
    unfold Run.step at stepped
    cases waiting : run.await with
    | waitForTick wakeAfter armed =>
      rw [waiting] at awake
      cases awake
    | _ =>
      simp only [waiting] at stepped
      cases stepped

/-- The gate is left for a run's retirement once there is a request for it. -/
theorem left_of_told (gate : atGate run.await = true) (internal : ∀ signal, event ≠ .signal signal)
    (stepped : workflow.step run event = some (next, effects)) : run.toContext.leaveGate = (next, effects) := by
  change run.step event = some (next, effects) at stepped
  cases waiting : run.await with
  | waitForTick wakeAfter armed =>
    unfold Run.step at stepped
    cases event with
    | signal signal => exact (internal signal rfl).elim
    | woken =>
      simp only [waiting] at stepped
      split at stepped
      · exact Option.some.inj stepped
      · cases stepped
    | timerFired =>
      simp only [waiting] at stepped
      split at stepped
      · exact Option.some.inj stepped
      · cases stepped
    | reply reply suggested =>
      simp only [waiting] at stepped
      cases reply <;> cases stepped
  | _ => rw [waiting] at gate; cases gate

/-- One step of an agent that has been told. -/
theorem Retires.step {whole : Prop} (retires : Retires whole run) (internal : ∀ signal, event ≠ .signal signal)
    (stepped : workflow.step run event = some (next, effects))
    (unfailing : ∀ suggested, event = .reply .failed suggested → ¬ whole) :
    Retires whole next ∧ next.input = run.input ∧ remaining next.await < remaining run.await ∧
      ∀ effect ∈ effects, Leaving run effect := by
  cases retires with
  | requested gate told =>
    obtain ⟨await, input, leaving⟩ := @leaveGate_retires run.toContext told
    rw [left_of_told gate internal stepped] at await input leaving
    refine ⟨.persisting await, input, ?_, leaving run⟩
    cases waiting : run.await with
    | waitForTick wakeAfter armed =>
      rw [await]
      exact Nat.lt_succ_self 2
    | _ => rw [waiting] at gate; cases gate
  | persisting await =>
    obtain ⟨reply, suggested, rfl, resumed⟩ := replied_of_awake (by rw [await]; rfl) internal stepped
    rw [await] at resumed
    cases reply with
    | retirementPersisted =>
      replace resumed := Option.some.inj resumed
      unfold Context.retired at resumed
      split at resumed
      · rename_i handle parent
        cases resumed
        refine ⟨.signalling rfl, rfl, by rw [await]; exact Nat.lt_succ_self 1, ?_⟩
        intro effect member
        rw [List.mem_singleton.mp member]
        exact ⟨handle, _, parent, rfl, rfl⟩
      · cases resumed
        refine ⟨.closed rfl, rfl, by rw [await]; exact Nat.succ_pos _, ?_⟩
        intro effect member
        rw [List.mem_singleton.mp member]
        trivial
    | failed =>
      cases resumed
      refine ⟨.failed (unfailing suggested rfl) rfl, rfl, by rw [await]; exact Nat.succ_pos _, ?_⟩
      intro effect member
      rw [List.mem_singleton.mp member]
      trivial
    | _ => cases resumed
  | signalling await =>
    obtain ⟨reply, suggested, rfl, resumed⟩ := replied_of_awake (by rw [await]; rfl) internal stepped
    rw [await] at resumed
    cases reply with
    | signalSent =>
      cases resumed
      refine ⟨.closed rfl, rfl, by rw [await]; exact Nat.succ_pos _, ?_⟩
      intro effect member
      rw [List.mem_singleton.mp member]
      trivial
    | _ => cases resumed
  | closed ended | failed broken ended =>
    obtain ⟨reply, suggested, rfl, resumed⟩ := replied_of_awake (by rw [ended]; rfl) internal stepped
    rw [ended] at resumed
    cases reply <;> cases resumed

theorem Retires.receive {whole : Prop} (retires : Retires whole run) (trigger : Trigger) :
    Retires whole { run with state := run.state.receive (.externalSignal trigger) } := by
  cases retires with
  | requested gate told => exact .requested gate told
  | persisting await => exact .persisting await
  | signalling await => exact .signalling await
  | closed ended => exact .closed ended
  | failed broken ended => exact .failed broken ended

theorem Retires.moves (retires : Retires True run) :
    run.await = .closed (.completed (.retired RETIRE_REASON)) ∨
      ∃ event, progress event = true ∧ (workflow.step run event).isSome = true := by
  cases retires with
  | requested gate told =>
    refine .inr ⟨.woken, rfl, ?_⟩
    change (run.step .woken).isSome = true
    have signalled : run.state.signalled = true := by
      unfold AgentWorkflow.signalled
      rw [told, Option.isSome_some, Bool.or_true]
    unfold Run.step
    cases waiting : run.await with
    | waitForTick wakeAfter armed => simp [signalled]
    | _ => rw [waiting] at gate; cases gate
  | persisting await =>
    refine .inr ⟨.reply .retirementPersisted false, rfl, ?_⟩
    change (run.toContext.resume false run.await .retirementPersisted).isSome = true
    rw [await]
    rfl
  | signalling await =>
    refine .inr ⟨.reply .signalSent false, rfl, ?_⟩
    change (run.toContext.resume false run.await .signalSent).isSome = true
    rw [await]
    rfl
  | closed ended => exact .inl ended
  | failed broken ended => exact (broken trivial).elim

theorem Retires.ends (retires : Retires True run) : EndsRetired RETIRE_REASON run := by
  induction left : remaining run.await using Nat.strong_induction_on generalizing run with
  | _ steps ih =>
    rcases retires.moves with ended | moves
    · exact .closed ended
    · refine .goesOn moves ?_
      intro event next effects forward stepped
      obtain ⟨later, -, shorter, -⟩ := retires.step (by rintro signal rfl; cases forward) stepped
        (by rintro suggested rfl; cases forward)
      exact ih _ (left ▸ shorter) later rfl

end Runs

section Order

variable {graph : Graph} {order : List AgentId}

theorem workflowId_inj {first second : AgentId} :
    graph.workflowId first.toString = graph.workflowId second.toString ↔ first = second := by
  constructor
  · intro same
    unfold Graph.workflowId agentWorkflowId at same
    have text := congrArg String.toList same
    simp only [String.toList_append] at text
    obtain ⟨firstId⟩ := first
    obtain ⟨secondId⟩ := second
    exact congrArg AgentId.mk (Coral.Proofs.hyphenated_injective (String.toList_inj.mp (List.append_cancel_left text)))
  · exact fun same => same ▸ rfl

/-- A message that an agent on its way out sends to its parent. -/
def ToParent (run : Run) (message : SentSignal) : Prop :=
  ∃ handle trigger, run.input.parentHandle = some handle ∧ message.target = handle.workflowId ∧
    message.signal = .externalSignal trigger

theorem leaving_performed {run : Run} {effects : List Effect} (leaving : ∀ effect ∈ effects, Leaving run effect) (graph : Graph) :
    (effects.foldl Graph.perform graph).workflows = graph.workflows ∧
      ∀ message ∈ (effects.foldl Graph.perform graph).flight, message ∈ graph.flight ∨ ToParent run message := by
  induction effects generalizing graph with
  | nil => exact ⟨rfl, fun message member => .inl member⟩
  | cons effect effects ih =>
    obtain ⟨workflows, flight⟩ := ih (fun other member => leaving other (List.mem_cons_of_mem _ member)) (graph.perform effect)
    have own := leaving effect List.mem_cons_self
    rw [List.foldl_cons, workflows]
    cases effect with
    | signalWorkflow target signal =>
      refine ⟨rfl, ?_⟩
      intro message member
      rcases flight message member with earlier | later
      · rcases List.mem_append.mp earlier with old | new
        · exact .inl old
        · obtain ⟨handle, trigger, parent, same, carried⟩ := own
          rw [List.mem_singleton.mp new]
          exact .inr ⟨handle, trigger, parent, same, carried⟩
      · exact .inr later
    | startChild workflowId input => exact own.elim
    | _ => exact ⟨rfl, flight⟩

/-- Those told are on their way out, the others as the sweep has found them, and whatever
is on its way is for one that has been told. -/
structure Tearing (whole : Prop) (graph : Graph) (order told : List AgentId) (state : Teardown) : Prop where
  split : order = told ++ state.untold
  home : state.graph.graphId = graph.graphId
  waiting : ∀ id ∈ state.untold,
    state.graph.workflows (graph.workflowId id.toString) = graph.workflows (graph.workflowId id.toString)
  leaving : ∀ id ∈ told, ∃ run old, state.graph.workflows (graph.workflowId id.toString) = some run ∧
    graph.workflows (graph.workflowId id.toString) = some old ∧ run.input = old.input ∧ Retires whole run
  others : ∀ workflowId run, state.graph.workflows workflowId = some run → run.isOpen = true →
    ∃ id ∈ order, workflowId = graph.workflowId id.toString
  flight : ∀ message ∈ state.graph.flight, (∀ id ∈ state.untold, message.target ≠ graph.workflowId id.toString) ∧
    ∃ trigger, message.signal = .externalSignal trigger

variable {whole : Prop} {told : List AgentId} {state : Teardown}

theorem Quiescent.idle (quiescent : Quiescent graph order) {workflowId : String} {run : Run}
    (running : graph.workflows workflowId = some run) (open_ : run.isOpen = true) : Idle run := by
  obtain ⟨-, parked, unasked⟩ := quiescent.alive workflowId run running open_
  exact (steady_of_quiescent (quiescent.sound.valid workflowId run running) "" parked unasked).idle

theorem Tearing.start (quiescent : Quiescent graph order) : Tearing whole graph order [] ⟨graph, order⟩ where
  split := rfl
  home := rfl
  waiting := fun _ _ => rfl
  leaving := fun _ member => (List.not_mem_nil member).elim
  others := fun workflowId run running open_ => (quiescent.alive workflowId run running open_).1
  flight := by
    intro message member
    rw [quiescent.still] at member
    cases member

/-- Every run that is open is of an agent that has been told, or idle as it was. -/
theorem Tearing.cases (tearing : Tearing whole graph order told state) (quiescent : Quiescent graph order) {workflowId : String}
    {run : Run} (running : state.graph.workflows workflowId = some run) (open_ : run.isOpen = true) :
    (∃ id ∈ told, workflowId = graph.workflowId id.toString ∧ Retires whole run) ∨
      (∃ id ∈ state.untold, workflowId = graph.workflowId id.toString) ∧ Idle run := by
  obtain ⟨id, member, rfl⟩ := tearing.others workflowId run running open_
  rw [tearing.split] at member
  rcases List.mem_append.mp member with gone | here
  · obtain ⟨found, old, there, -, -, retires⟩ := tearing.leaving id gone
    obtain rfl := Option.some.inj (running.symm.trans there)
    exact .inl ⟨id, gone, rfl, retires⟩
  · have same := tearing.waiting id here
    rw [running] at same
    exact .inr ⟨⟨id, here, rfl⟩, quiescent.idle same.symm open_⟩

theorem accept_ok {before after : Graph} {workflowId : String} {signal : Signal}
    (accepted : accept before workflowId signal = some after) : ∃ run, before.workflows workflowId = some run ∧
      run.isOpen = true ∧ after = before.setRun workflowId { run with state := run.state.receive signal } := by
  unfold accept at accepted
  simp only [Option.bind_eq_bind, Option.bind_eq_some_iff, Prod.exists, Option.pure_def, Option.some.injEq] at accepted
  obtain ⟨run, running, next, effects, moved, rfl⟩ := accepted
  have moved : workflow.step run (.signal signal) = some (next, effects) := moved
  obtain ⟨_, same, open_, rfl, -⟩ | ⟨silent, -⟩ := step_cases moved
  · cases same
    exact ⟨run, running, isOpen_of_isClosed open_, rfl⟩
  · exact (silent _ rfl).elim

theorem Tearing.untold_nodup (tearing : Tearing whole graph order told state) (quiescent : Quiescent graph order) :
    state.untold.Nodup ∧ told.Disjoint state.untold := by
  have distinct := quiescent.distinct
  rw [tearing.split, List.nodup_append'] at distinct
  exact ⟨distinct.2.1, distinct.2.2⟩

theorem Tearing.tell (tearing : Tearing whole graph order told state) (quiescent : Quiescent graph order) {id : AgentId}
    {rest : List AgentId} (next : state.untold = id :: rest) {after : Graph}
    (accepted : accept state.graph (state.graph.workflowId id.toString) (.retire RETIRE_REASON) = some after) :
    Tearing whole graph order (told ++ [id]) ⟨after, rest⟩ := by
  obtain ⟨run, running, open_, rfl⟩ := accept_ok accepted
  obtain ⟨distinct, apart⟩ := tearing.untold_nodup quiescent
  rw [next] at distinct apart
  have here : id ∈ state.untold := by
    rw [next]
    exact List.mem_cons_self
  have home : state.graph.workflowId id.toString = graph.workflowId id.toString := by
    unfold Graph.workflowId
    rw [tearing.home]
  rw [home] at running ⊢
  have as_found := tearing.waiting id here
  rw [running] at as_found
  have away : ∀ {other : AgentId}, other ≠ id → graph.workflowId other.toString ≠ graph.workflowId id.toString :=
    fun differs same => differs (workflowId_inj.mp same)
  constructor
  · rw [tearing.split, next, List.append_assoc]
    rfl
  · exact tearing.home
  · intro other member
    have differs : other ≠ id := by
      rintro rfl
      exact (List.nodup_cons.mp distinct).1 member
    rw [setRun_workflows, if_neg (away differs)]
    exact tearing.waiting other (next ▸ List.mem_cons_of_mem _ member)
  · intro other member
    rcases List.mem_append.mp member with earlier | last
    · have differs : other ≠ id := by
        rintro rfl
        exact apart earlier List.mem_cons_self
      obtain ⟨found, old, there, before, input, retires⟩ := tearing.leaving other earlier
      exact ⟨found, old, by rw [setRun_workflows, if_neg (away differs)]; exact there, before, input, retires⟩
    · rw [List.mem_singleton.mp last]
      obtain ⟨wakeAfter, await⟩ := (quiescent.idle as_found.symm open_).unarmed
      have gate : atGate run.await = true := by
        rw [await]
        rfl
      exact ⟨{ run with state := run.state.receive (.retire RETIRE_REASON) }, run, by rw [setRun_workflows, if_pos rfl],
        as_found.symm, rfl, .requested gate rfl⟩
  · intro workflowId other there still_open
    rw [setRun_workflows] at there
    split at there
    · rename_i same
      exact ⟨id, tearing.split ▸ List.mem_append_right _ here, same⟩
    · exact tearing.others workflowId other there still_open
  · intro message member
    obtain ⟨elsewhere, carried⟩ := tearing.flight message member
    exact ⟨fun other later => elsewhere other (next ▸ List.mem_cons_of_mem _ later), carried⟩

theorem emitted_act {before : Graph} {workflowId : String} {event : Event} {run next : Run} {effects : List Effect}
    (running : before.workflows workflowId = some run) (stepped : workflow.step run event = some (next, effects)) :
    emitted before (.act workflowId event) = effects.map fun effect => (workflowId, effect) := by
  have stepped : run.step event = some (next, effects) := stepped
  simp only [emitted, running, Option.bind_some, stepped]

theorem leaving_startsNothing {run : Run} {effects : List Effect} (leaving : ∀ effect ∈ effects, Leaving run effect)
    (workflowId : String) : StartsNothing (effects.map fun effect => (workflowId, effect)) := by
  constructor
  · intro output member
    obtain ⟨effect, among, rfl⟩ := List.mem_map.mp member
    have own := leaving effect among
    cases effect with
    | activity activity => cases activity <;> first | rfl | exact own.elim
    | _ => rfl
  · rintro output member target input same
    obtain ⟨effect, among, rfl⟩ := List.mem_map.mp member
    have own := leaving effect among
    rw [show effect = _ from same] at own
    exact own

theorem Tearing.acted (tearing : Tearing whole graph order told state) (quiescent : Quiescent graph order)
    (first : ParentsFirst graph order) {id : AgentId} (gone : id ∈ told) {run next : Run} {effects : List Effect}
    (running : state.graph.workflows (graph.workflowId id.toString) = some run) (input : next.input = run.input)
    (retires : Retires whole next) (leaving : ∀ effect ∈ effects, Leaving run effect) :
    Tearing whole graph order told
      ⟨effects.foldl Graph.perform (state.graph.setRun (graph.workflowId id.toString) next), state.untold⟩ := by
  obtain ⟨workflows, flight⟩ := leaving_performed leaving (state.graph.setRun (graph.workflowId id.toString) next)
  obtain ⟨-, apart⟩ := tearing.untold_nodup quiescent
  constructor
  · exact tearing.split
  · rw [(performed_grown _ effects).graphId]
    exact tearing.home
  · intro other member
    rw [workflows, setRun_workflows, if_neg]
    · exact tearing.waiting other member
    · intro same
      rw [workflowId_inj.mp same] at member
      exact apart gone member
  · intro other member
    obtain ⟨found, old, there, before, same, leaves⟩ := tearing.leaving other member
    rw [workflows, setRun_workflows]
    by_cases at_ : graph.workflowId other.toString = graph.workflowId id.toString
    · rw [at_, running] at there
      obtain rfl := Option.some.inj there
      rw [if_pos at_]
      exact ⟨next, old, rfl, before, input.trans same, retires⟩
    · rw [if_neg at_]
      exact ⟨found, old, there, before, same, leaves⟩
  · intro workflowId other there open_
    rw [workflows, setRun_workflows] at there
    split at there
    · rename_i same
      exact ⟨id, tearing.split ▸ List.mem_append_left _ gone, same⟩
    · exact tearing.others workflowId other there open_
  · intro message member
    rcases flight message member with earlier | ⟨handle, trigger, parent, target, carried⟩
    · exact tearing.flight message earlier
    · refine ⟨?_, trigger, carried⟩
      intro above later same
      obtain ⟨found, old, there, before, agrees, -⟩ := tearing.leaving id gone
      obtain rfl := Option.some.inj (running.symm.trans there)
      have ordered := first
      unfold ParentsFirst at ordered
      rw [tearing.split, List.pairwise_append] at ordered
      exact ordered.2.2 id gone above later ⟨old, handle, before, by rw [← agrees]; exact parent, target.symm.trans same⟩

/-- A step of the graph, among the signals of the teardown. -/
theorem Tearing.step (tearing : Tearing whole graph order told state) (quiescent : Quiescent graph order)
    (first : ParentsFirst graph order) {event : GraphEvent} {after : Graph} (stepped : state.graph.step event = some after)
    (unfailing : ∀ workflowId suggested, event = .act workflowId (.reply .failed suggested) → ¬ whole) :
    Tearing whole graph order told ⟨after, state.untold⟩ ∧ StartsNothing (emitted state.graph event) := by
  have silent : StartsNothing [] := ⟨fun _ member => (List.not_mem_nil member).elim, fun _ member => (List.not_mem_nil member).elim⟩
  cases graph_changes stepped with
  | @acted workflowId event run next effects internal running moved launchable =>
    obtain ⟨open_, restless⟩ := not_idle_of_acts internal moved
    obtain ⟨id, gone, rfl, retires⟩ | ⟨-, idle⟩ := tearing.cases quiescent running open_
    · obtain ⟨later, input, -, leaving⟩ := retires.step internal moved fun suggested same =>
        unfailing _ suggested (by rw [same])
      refine ⟨tearing.acted quiescent first gone running input later leaving, ?_⟩
      rw [emitted_act running moved]
      exact leaving_startsNothing leaving _
    · exact (restless idle).elim
  | registered agentId =>
    exact ⟨⟨tearing.split, tearing.home, tearing.waiting, tearing.leaving, tearing.others, tearing.flight⟩, silent⟩
  | @delivered id message run sent found running open_ =>
    refine ⟨?_, silent⟩
    obtain ⟨elsewhere, trigger, carried⟩ := tearing.flight message sent
    obtain ⟨target, gone, same, retires⟩ | ⟨⟨target, here, same⟩, -⟩ :=
      tearing.cases quiescent running (isOpen_of_isClosed open_)
    · rw [same] at running ⊢
      have received := tearing.acted quiescent first gone running (show
        ({ run with state := run.state.receive message.signal } : Run).input = run.input from rfl)
        (by rw [carried]; exact retires.receive trigger) (fun _ member => (List.not_mem_nil member).elim)
      refine ⟨received.split, received.home, received.waiting, received.leaving, received.others, ?_⟩
      exact fun other member => tearing.flight other (List.mem_filter.mp member).1
    · exact (elsewhere target here same).elim
  | lost id =>
    refine ⟨⟨tearing.split, tearing.home, tearing.waiting, tearing.leaving, tearing.others, ?_⟩, silent⟩
    exact fun other member => tearing.flight other (List.mem_filter.mp member).1

theorem Tearing.mono (tearing : Tearing whole graph order told state) {less : Prop} (weaker : less → whole) :
    Tearing less graph order told state := by
  refine ⟨tearing.split, tearing.home, tearing.waiting, ?_, tearing.others, tearing.flight⟩
  intro id member
  obtain ⟨run, old, there, before, input, retires⟩ := tearing.leaving id member
  exact ⟨run, old, there, before, input, retires.mono weaker⟩

theorem StartsNothing.append {first second : List (String × Effect)} (before : StartsNothing first) (after : StartsNothing second) :
    StartsNothing (first ++ second) where
  seeds := List.forall_mem_append.mpr ⟨before.seeds, after.seeds⟩
  children := List.forall_mem_append.mpr ⟨before.children, after.children⟩

theorem tornDown_of_parentsFirst (quiescent : Quiescent graph order) (first : ParentsFirst graph order) :
    TornDown graph order := by
  intro events final outputs ran
  have silent : StartsNothing [] := ⟨fun _ member => (List.not_mem_nil member).elim, fun _ member => (List.not_mem_nil member).elim⟩
  obtain ⟨⟨told, tearing⟩, nothing⟩ := teardown.history_invariant
    (fun events state outputs => (∃ told, Tearing (Unfailing events) graph order told state) ∧ StartsNothing outputs)
    ⟨⟨[], .start quiescent⟩, silent⟩ (by
      rintro events state outputs event next more ⟨⟨told, tearing⟩, nothing⟩ stepped
      have weaker : Unfailing (events ++ [event]) → Unfailing events :=
        fun unfailing workflowId suggested member => unfailing workflowId suggested (List.mem_append_left _ member)
      have tearing := tearing.mono weaker
      cases event with
      | graph event =>
        obtain ⟨after, moved, same⟩ := Option.map_eq_some_iff.mp stepped
        obtain ⟨rfl, rfl⟩ := Prod.mk.inj same
        obtain ⟨later, quiet⟩ := tearing.step quiescent first moved (by
          rintro workflowId suggested rfl unfailing
          exact unfailing workflowId suggested (List.mem_append_right _ List.mem_cons_self))
        exact ⟨⟨told, later⟩, nothing.append quiet⟩
      | tell =>
        change state.step .tell = some (next, more) at stepped
        unfold Teardown.step at stepped
        simp only at stepped
        split at stepped
        · cases stepped
        · rename_i id rest untold
          obtain ⟨after, accepted, same⟩ := Option.map_eq_some_iff.mp stepped
          obtain ⟨rfl, rfl⟩ := Prod.mk.inj same
          rw [List.append_nil]
          exact ⟨⟨told ++ [id], tearing.tell quiescent untold accepted⟩, nothing⟩) ran
  refine ⟨nothing, ?_⟩
  intro done unfailing id member
  rw [tearing.split, done, List.append_nil] at member
  obtain ⟨run, old, there, -, -, retires⟩ := tearing.leaving id member
  refine ⟨run, ?_, (retires.mono fun _ => unfailing).ends⟩
  unfold Graph.workflowId at there ⊢
  rw [tearing.home]
  exact there

end Order

section OutOfOrder

variable {graph : Graph} {before rest : List AgentId} {child parent : AgentId}

theorem act_ok {graph : Graph} {workflowId : String} {event : Event} {run next : Run} {effects : List Effect}
    (running : graph.workflows workflowId = some run) (internal : ∀ signal, event ≠ .signal signal)
    (stepped : run.step event = some (next, effects)) (launchable : ∀ effect ∈ effects, ∀ target input, effect ≠ .startChild target input) :
    graph.step (.act workflowId event) = some (effects.foldl Graph.perform (graph.setRun workflowId next)) := by
  have acts : graph.act workflowId event = some (effects.foldl Graph.perform (graph.setRun workflowId next)) := by
    unfold Graph.act
    rw [running]
    simp only [Option.bind_eq_bind, Option.bind_some, stepped]
    rw [if_pos]
    rw [List.all_eq_true]
    intro effect member
    cases effect with
    | startChild target input => exact (launchable _ member target input rfl).elim
    | _ => rfl
  cases event with
  | signal signal => exact (internal signal rfl).elim
  | _ => exact acts

/-- The agents up to here are told, and nothing else happens. -/
theorem tells (open_ : ∀ id ∈ before, ∃ run, graph.workflows (graph.workflowId id.toString) = some run ∧ isClosed run.await = false)
    (distinct : before.Nodup) : ∃ after, teardown.run ⟨graph, before ++ rest⟩ (before.map fun _ => .tell) = some (⟨after, rest⟩, []) ∧
      after.graphId = graph.graphId ∧ after.flight = graph.flight ∧
      ∀ id ∉ before, after.workflows (graph.workflowId id.toString) = graph.workflows (graph.workflowId id.toString) := by
  induction before generalizing graph with
  | nil => exact ⟨graph, rfl, rfl, rfl, fun _ _ => rfl⟩
  | cons id before ih =>
    obtain ⟨unlisted, distinct⟩ := List.nodup_cons.mp distinct
    obtain ⟨run, running, live⟩ := open_ id List.mem_cons_self
    let next : Graph := graph.setRun (graph.workflowId id.toString) { run with state := run.state.receive (.retire RETIRE_REASON) }
    have elsewhere : ∀ other, other ≠ id → next.workflows (graph.workflowId other.toString) =
        graph.workflows (graph.workflowId other.toString) := by
      intro other differs
      rw [setRun_workflows, if_neg fun same => differs (workflowId_inj.mp same)]
    obtain ⟨after, ran, home, flight, kept⟩ := @ih next (by
      intro other member
      have differs : other ≠ id := by
        rintro rfl
        exact unlisted member
      obtain ⟨found, there, live⟩ := open_ other (List.mem_cons_of_mem _ member)
      exact ⟨found, (elsewhere other differs).trans there, live⟩) distinct
    refine ⟨after, ?_, home, flight, ?_⟩
    · rw [List.map_cons, Machine.run_cons]
      refine ⟨⟨next, before ++ rest⟩, [], [], ?_, ran, rfl⟩
      have told : run.step (.signal (.retire RETIRE_REASON)) =
          some ({ run with state := run.state.receive (.retire RETIRE_REASON) }, []) := receive_step live _
      change (Teardown.mk graph (id :: (before ++ rest))).step .tell = _
      simp only [Teardown.step, accept, running, Option.bind_eq_bind, Option.bind_some, told]
      rfl
    · intro other outside
      rw [List.mem_cons, not_or] at outside
      exact (kept other outside.2).trans (elsewhere other outside.1)

theorem woken_told {run : Run} (gate : atGate run.await = true) (told : run.state.retirementRequest = some RETIRE_REASON) :
    ∃ next drained, run.step .woken = some (next, [.drained drained, .activity (.persistRetirement run.input.fsHandle RETIRE_REASON)]) ∧
      next.await = .persistRetirement RETIRE_REASON ∧ next.input = run.input := by
  have signalled : run.state.signalled = true := by
    unfold AgentWorkflow.signalled
    rw [told, Option.isSome_some, Bool.or_true]
  unfold Run.step
  cases waiting : run.await with
  | waitForTick wakeAfter armed =>
    simp only [signalled, if_true]
    unfold Context.leaveGate drainBuckets
    simp only [told]
    exact ⟨_, _, rfl, rfl, rfl⟩
  | _ => rw [waiting] at gate; cases gate

theorem woken_unasked {run : Run} (gate : atGate run.await = true) (unasked : run.state.retirementRequest = none)
    (signalled : run.state.signalled = true) : ∃ next drained seed, run.step .woken = some (next, [.drained drained, seed]) ∧
      isSeed seed = true := by
  unfold Run.step
  cases waiting : run.await with
  | waitForTick wakeAfter armed =>
    simp only [signalled, if_true]
    unfold Context.leaveGate drainBuckets
    simp only [unasked]
    exact ⟨_, _, _, rfl, rfl⟩
  | _ => rw [waiting] at gate; cases gate

theorem graph_stepped {graph after : Graph} {untold : List AgentId} {event : GraphEvent} (moved : graph.step event = some after) :
    teardown.step ⟨graph, untold⟩ (.graph event) = some (⟨after, untold⟩, emitted graph event) := by
  change (graph.step event).map _ = _
  rw [moved]
  rfl

/-- A child that has been told leaves, and its signal wakes a parent that has not. -/
theorem hasty_parent {graph : Graph} {untold : List AgentId} {childId parentId : String} {child parent : Run} {handle : ParentRef}
    (apart : parentId ≠ childId) (running : graph.workflows childId = some child) (above : graph.workflows parentId = some parent)
    (gate : atGate child.await = true) (told : child.state.retirementRequest = some RETIRE_REASON)
    (named : child.input.parentHandle = some handle) (same : handle.workflowId = parentId) (waits : atGate parent.await = true)
    (unasked : parent.state.retirementRequest = none) (still : graph.flight = []) :
    ∃ events final outputs, teardown.run ⟨graph, untold⟩ events = some (final, outputs) ∧
      ∃ output ∈ outputs, isSeed output.2 = true := by
  obtain ⟨leaving, drained, woken, persisting, input⟩ := woken_told gate told
  have first : graph.step (.act childId .woken) = some (graph.setRun childId leaving) :=
    act_ok running (by intro signal same; cases same) woken (by simp)
  let trigger := Trigger.childRetired ⟨leaving.workflowId, leaving.input.agentId⟩ leaving.input.agentName RETIRE_REASON
  have parted : leaving.step (.reply .retirementPersisted false) =
      some (leaving.toContext.awaiting (.signalParent RETIRE_REASON), [.signalWorkflow parentId (.externalSignal trigger)]) := by
    change leaving.toContext.resume false leaving.await .retirementPersisted = _
    rw [persisting]
    simp only [Context.resume, Context.retired, input, named, same]
    rw [← input]
  let sent : Graph := ((graph.setRun childId leaving).setRun childId (leaving.toContext.awaiting (.signalParent RETIRE_REASON))).send
    parentId (.externalSignal trigger)
  have second : (graph.setRun childId leaving).step (.act childId (.reply .retirementPersisted false)) = some sent :=
    act_ok (by rw [setRun_workflows, if_pos rfl]) (by intro signal same; cases same) parted (by simp)
  let received : Run := { parent with state := parent.state.receive (.externalSignal trigger) }
  have unmoved : sent.workflows parentId = some parent := by
    change ((graph.setRun childId leaving).setRun childId _).workflows parentId = some parent
    rw [setRun_workflows, if_neg apart, setRun_workflows, if_neg apart]
    exact above
  let delivered : Graph := { sent.setRun parentId received with flight := sent.flight.filter (·.id != graph.sent) }
  have third : sent.step (.deliver graph.sent) = some delivered := by
    have found : sent.flight.find? (·.id == graph.sent) = some ⟨graph.sent, parentId, .externalSignal trigger⟩ := by
      change (graph.flight ++ [_]).find? _ = _
      rw [still]
      simp [Graph.setRun]
    have open_ : isClosed parent.await = false := by
      cases waiting : parent.await with
      | closed outcome => rw [waiting] at waits; cases waits
      | _ => rfl
    have moved : parent.step (.signal (.externalSignal trigger)) = some (received, []) := receive_step open_ _
    change sent.deliver graph.sent = _
    unfold Graph.deliver
    rw [found]
    simp only [Option.bind_eq_bind, Option.bind_some, unmoved, moved]
    rfl
  have roused : received.state.signalled = true := by
    simp [received, AgentWorkflow.signalled, AgentWorkflow.receive]
  obtain ⟨next, taken, seed, awake, seeds⟩ := woken_unasked (show atGate received.await = true from waits)
    (show received.state.retirementRequest = none from unasked) roused
  have awaits : delivered.workflows parentId = some received := (setRun_workflows sent parentId parentId received).trans (if_pos rfl)
  obtain ⟨final, fourth⟩ : ∃ final, delivered.step (.act parentId .woken) = some final :=
    ⟨_, act_ok awaits (by intro signal same; cases same) awake (by
      intro effect member target start
      rcases List.mem_cons.mp member with rfl | later
      · intro started
        cases started
      · rw [List.mem_singleton.mp later]
        rintro rfl
        cases seeds)⟩
  have emits : emitted delivered (.act parentId .woken) = [(parentId, .drained taken), (parentId, seed)] := emitted_act awaits
    (show workflow.step received .woken = some (next, [.drained taken, seed]) from awake)
  have last := @graph_stepped delivered final untold (.act parentId .woken) fourth
  rw [emits] at last
  obtain ⟨outputs, ran, among⟩ : ∃ outputs, teardown.run ⟨sent, untold⟩ [.graph (.deliver graph.sent), .graph (.act parentId .woken)] =
      some (⟨final, untold⟩, outputs) ∧ (parentId, seed) ∈ outputs :=
    ⟨_, teardown.run_cons.mpr ⟨_, _, _, graph_stepped third, teardown.run_cons.mpr ⟨_, _, _, last, rfl, rfl⟩, rfl⟩, by simp⟩
  exact ⟨.graph (.act childId .woken) :: .graph (.act childId (.reply .retirementPersisted false)) :: _, _, _,
    teardown.run_cons.mpr ⟨_, _, _, graph_stepped first, teardown.run_cons.mpr ⟨_, _, _, graph_stepped second, ran, rfl⟩, rfl⟩,
    (parentId, seed), List.mem_append_right _ (List.mem_append_right _ among), seeds⟩

theorem not_pairwise_split {α : Type} {related : α → α → Prop} {items : List α} (fails : ¬ items.Pairwise related) :
    ∃ before first rest, items = before ++ first :: rest ∧ ∃ second ∈ rest, ¬ related first second := by
  induction items with
  | nil => exact (fails List.Pairwise.nil).elim
  | cons item items ih =>
    by_cases own : ∀ second ∈ items, related item second
    · obtain ⟨before, first, rest, split, found⟩ := ih fun later => fails (List.pairwise_cons.mpr ⟨own, later⟩)
      exact ⟨item :: before, first, rest, by rw [split]; rfl, found⟩
    · push Not at own
      exact ⟨[], item, items, rfl, own⟩

theorem seeds_of_disorder {order : List AgentId} (quiescent : Quiescent graph order) (disorder : ¬ ParentsFirst graph order) :
    ∃ events final outputs, teardown.run ⟨graph, order⟩ events = some (final, outputs) ∧
      ∃ output ∈ outputs, isSeed output.2 = true := by
  obtain ⟨before, child, rest, rfl, parent, later, related⟩ := not_pairwise_split disorder
  obtain ⟨run, handle, running, named, same⟩ := not_not.mp related
  obtain ⟨distinct, distinct_rest, apart⟩ := List.nodup_append'.mp quiescent.distinct
  have unlisted : child ∉ before := fun member => apart member List.mem_cons_self
  have above_unlisted : parent ∉ before := fun member => apart member (List.mem_cons_of_mem _ later)
  have other : parent ≠ child := by
    rintro rfl
    exact (List.nodup_cons.mp distinct_rest).1 later
  have waits : ∀ id ∈ before ++ child :: rest, ∃ run, graph.workflows (graph.workflowId id.toString) = some run ∧
      atGate run.await = true ∧ isClosed run.await = false ∧ run.state.retirementRequest = none := by
    intro id member
    obtain ⟨run, running, open_⟩ := quiescent.listed id member
    obtain ⟨wakeAfter, await⟩ := (quiescent.idle running open_).unarmed
    exact ⟨run, running, by rw [await]; rfl, by rw [await]; rfl, (quiescent.alive _ _ running open_).2.2⟩
  obtain ⟨after, ran, home, flight, kept⟩ := @tells graph before (child :: rest) (by
    intro id member
    obtain ⟨run, running, -, live, -⟩ := waits id (List.mem_append_left _ member)
    exact ⟨run, running, live⟩) distinct
  obtain ⟨_, again, gate, live, -⟩ := waits child (List.mem_append_right _ List.mem_cons_self)
  obtain rfl := Option.some.inj (running.symm.trans again)
  obtain ⟨above, up, awaits, -, unasked⟩ := waits parent (List.mem_append_right _ (List.mem_cons_of_mem _ later))
  have told : run.step (.signal (.retire RETIRE_REASON)) =
      some ({ run with state := run.state.receive (.retire RETIRE_REASON) }, []) := receive_step live _
  have away : graph.workflowId parent.toString ≠ graph.workflowId child.toString := fun same => other (workflowId_inj.mp same)
  have tell : teardown.step ⟨after, child :: rest⟩ .tell = some (⟨after.setRun (graph.workflowId child.toString)
      { run with state := run.state.receive (.retire RETIRE_REASON) }, rest⟩, []) := by
    have here : after.workflowId child.toString = graph.workflowId child.toString := by
      unfold Graph.workflowId
      rw [home]
    change (Teardown.mk after (child :: rest)).step .tell = _
    simp only [Teardown.step, accept, here, kept child unlisted, running, Option.bind_eq_bind, Option.bind_some, told]
    rfl
  obtain ⟨events, final, outputs, wakes, seeded⟩ := @hasty_parent (after.setRun (graph.workflowId child.toString)
      { run with state := run.state.receive (.retire RETIRE_REASON) }) rest _ _ _ above handle away
    ((setRun_workflows _ _ _ _).trans (if_pos rfl))
    ((setRun_workflows _ _ _ _).trans ((if_neg away).trans ((kept parent above_unlisted).trans up)))
    gate rfl named same awaits unasked (flight.trans quiescent.still)
  refine ⟨(before.map fun _ => .tell) ++ .tell :: events, final, [] ++ ([] ++ outputs), ?_, seeded⟩
  exact teardown.run_append.mpr ⟨_, _, _, ran, teardown.run_cons.mpr ⟨_, _, _, tell, wakes, rfl⟩, rfl⟩

end OutOfOrder

/-- Retiring a quiescent graph starts nothing new, however its signals and its workflows'
steps come, exactly when the listing has no child before its parent. -/
theorem tornDown_iff {graph : Graph} {order : List AgentId} (quiescent : Quiescent graph order) :
    TornDown graph order ↔ ParentsFirst graph order := by
  refine ⟨?_, tornDown_of_parentsFirst quiescent⟩
  intro torn
  by_contra disorder
  obtain ⟨events, final, outputs, ran, output, member, seeds⟩ := seeds_of_disorder quiescent disorder
  have nothing := (torn events final outputs ran).1.seeds output member
  rw [seeds] at nothing
  cases nothing

section Examples

private def home : GraphId := ⟨⟨0⟩⟩

private def editor : AgentId := ⟨⟨1⟩⟩

private def writer : AgentId := ⟨⟨2⟩⟩

/-- Parked, after a first cycle. -/
private def parkedRun (id : AgentId) (parentHandle : Option ParentRef) : Run where
  workflowId := agentWorkflowId home.toString id.toString
  input := { buildRootInput home id "agent" (.newNever "wait" none) ⟨⟩ with parentHandle }
  state := { tick := 1, parked := true, isNever := true }
  await := .waitForTick INITIAL_NEXT_WAKE false

private def toEditor : ParentRef := ⟨agentWorkflowId home.toString editor.toString, ParentRef.DEFAULT_SIGNAL⟩

private def runOf (id : AgentId) : Run := parkedRun id (if id = writer then some toEditor else none)

private def family : Graph where
  graphId := home
  registry := [editor, writer]
  workflows workflowId := ([editor, writer].find? fun id => decide (agentWorkflowId home.toString id.toString = workflowId)).map runOf
  flight := []
  sent := 0

private theorem family_runs {workflowId : String} {run : Run} (running : family.workflows workflowId = some run) :
    ∃ id ∈ [editor, writer], workflowId = family.workflowId id.toString ∧ run = runOf id := by
  obtain ⟨id, found, rfl⟩ := Option.map_eq_some_iff.mp running
  have named := List.find?_some found
  exact ⟨id, List.mem_of_find?_eq_some found, (of_decide_eq_true named).symm, rfl⟩

private theorem family_has {id : AgentId} (member : id ∈ [editor, writer]) :
    family.workflows (family.workflowId id.toString) = some (runOf id) := by
  have present : (family.workflows (family.workflowId id.toString)).isSome = true := by
    change (Option.map runOf (List.find? _ [editor, writer])).isSome = true
    rw [Option.isSome_map, List.find?_isSome]
    exact ⟨id, member, decide_eq_true rfl⟩
  obtain ⟨run, running⟩ := Option.isSome_iff_exists.mp present
  obtain ⟨other, -, same, rfl⟩ := family_runs running
  obtain rfl := workflowId_inj.mp same
  exact running

private theorem family_quiescent {order : List AgentId} (distinct : order.Nodup)
    (both : ∀ id, id ∈ order ↔ id ∈ [editor, writer]) : Quiescent family order where
  sound := {
    valid := by
      intro workflowId run running
      obtain ⟨id, -, -, rfl⟩ := family_runs running
      refine ⟨rfl, rfl, fun _ => rfl, trivial, ?_⟩
      intro wakeAfter armed waits
      cases waits
      rfl
    registered := by
      intro workflowId run running
      obtain ⟨id, member, same, -⟩ := family_runs running
      exact ⟨id, member, same⟩
    numbered := fun _ member => (List.not_mem_nil member).elim }
  distinct := distinct
  listed := fun id member => ⟨_, family_has ((both id).mp member), rfl⟩
  alive := by
    intro workflowId run running _
    obtain ⟨id, member, same, rfl⟩ := family_runs running
    exact ⟨⟨id, (both id).mpr member, same⟩, rfl, rfl⟩
  still := rfl

/-- The writer is listed before the editor that it is a child of: there is an order of
steps in which the writer's last signal has the editor begin a new cycle. -/
theorem child_listed_first : Quiescent family [writer, editor] ∧ ∃ events final outputs,
    teardown.run ⟨family, [writer, editor]⟩ events = some (final, outputs) ∧ ∃ output ∈ outputs, isSeed output.2 = true := by
  have quiescent : Quiescent family [writer, editor] := family_quiescent (by decide) (by simp [or_comm])
  refine ⟨quiescent, seeds_of_disorder quiescent ?_⟩
  intro ordered
  refine (List.pairwise_cons.mp ordered).1 editor List.mem_cons_self ⟨_, toEditor, family_has (by decide), rfl, rfl⟩

theorem tornDown_family : TornDown family [editor, writer] := by
  refine (tornDown_iff (family_quiescent (by decide) (by simp))).mpr ?_
  refine List.pairwise_cons.mpr ⟨?_, List.pairwise_singleton _ _⟩
  rintro id - ⟨run, handle, running, named, -⟩
  obtain rfl := Option.some.inj (running.symm.trans (family_has List.mem_cons_self))
  cases named

end Examples

end Coral.Worker.Proofs

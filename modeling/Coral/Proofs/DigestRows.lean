import Coral.Proofs.ForceIdle
import Coral.Proofs.GraphStep
import Coral.Proofs.SignalConservation
import Coral.Worker.Reaper

/-! What a row of the digest says of its agent from the read on: it is steady, or it has
lost the row for good, so that no later sweep reads the same row again. -/

namespace Coral.Worker.Proofs
open Coral.Library Coral.Temporal Coral.Temporal.Proofs

/-- Nothing but a signal moves this run. -/
structure Idle (run : Run) : Prop where
  unarmed : ∃ wakeAfter, run.await = .waitForTick wakeAfter false
  unsignalled : run.state.signalled = false

def counted (row : DigestRow) : Counts := ⟨row.triggers.toNat, row.humanOps.toNat, row.mandatePatches.toNat⟩

structure Steady (row : DigestRow) (run : Run) : Prop where
  idle : Idle run
  counts : observed run.state = counted row

/-- Some counter is past the row's. -/
def Outgrown (row : DigestRow) (s : AgentWorkflow) : Prop :=
  (counted row).triggers < (observed s).triggers ∨ (counted row).humanOps < (observed s).humanOps ∨
    (counted row).mandatePatches < (observed s).mandatePatches

/-- On its way out of `run`, or out already: it will not come to the gate again. -/
def Closing (await : Await) : Prop := inCycle await = false ∧ atGate await = false

inductive Lost (row : DigestRow) (run : Run) : Prop where
  | outgrown (more : Outgrown row run.state)
  | closing (leaves : Closing run.await)
  | retiring (gate : atGate run.await = true) (requested : run.state.retirementRequest.isSome = true)

theorem signalled_of_request {s : AgentWorkflow} (requested : s.retirementRequest.isSome = true) :
    s.signalled = true := by
  unfold AgentWorkflow.signalled
  rw [requested, Bool.or_true]

theorem Idle.gate {run : Run} (idle : Idle run) : atGate run.await = true := by
  obtain ⟨wakeAfter, waits⟩ := idle.unarmed
  rw [waits]
  rfl

theorem Idle.isOpen {run : Run} (idle : Idle run) : run.isOpen = true := by
  obtain ⟨wakeAfter, waits⟩ := idle.unarmed
  unfold Run.isOpen
  rw [waits]

theorem Idle.still {run next : Run} {event : Event} {effects : List Effect} (idle : Idle run)
    (internal : ∀ signal, event ≠ .signal signal) : workflow.step run event ≠ some (next, effects) := by
  intro stepped
  obtain ⟨wakeAfter, waits⟩ := idle.unarmed
  obtain ⟨signal, received, -⟩ | ⟨-, advances⟩ := step_cases stepped
  · exact internal signal received
  · rw [waits] at advances
    obtain ⟨result, rfl, rfl, advanced⟩ := advances.result
    cases advanced with
    | left reason =>
      rcases reason with ⟨-, signalled⟩ | ⟨-, armed⟩
      · rw [idle.unsignalled] at signalled; cases signalled
      · cases armed
    | stayed childHandles other stays => cases stays.awake
    | carried childHandles session other cycle fits => cases cycle

theorem Steady.not_lost {row : DigestRow} {run : Run} (steady : Steady row run) : ¬ Lost row run := by
  intro lost
  cases lost with
  | outgrown more =>
    unfold Outgrown at more
    rw [steady.counts] at more
    omega
  | closing leaves =>
    have gate := steady.idle.gate
    rw [leaves.2] at gate
    cases gate
  | retiring gate requested =>
    have signalled := signalled_of_request requested
    rw [steady.idle.unsignalled] at signalled
    cases signalled

/-- The counter that a signal bumps is not at its limit. -/
def countable (s : AgentWorkflow) : Signal → Bool
  | .externalSignal _ => s.cumulativeTriggersObserved.toNat < u64Max
  | .humanOverride _ => s.cumulativeHumanOpsObserved.toNat < u64Max
  | .mandateUpdate _ => s.cumulativeMandatePatchesObserved.toNat < u64Max
  | .retire _ => true

theorem Steady.signalled {row : DigestRow} {run : Run} (steady : Steady row run) {signal : Signal}
    (visible : countable run.state signal = true) :
    Lost row { run with state := run.state.receive signal } := by
  have counts := steady.counts
  cases signal with
  | retire reason => exact .retiring steady.idle.gate rfl
  | externalSignal trigger =>
    apply Lost.outgrown
    unfold Outgrown
    rw [receive_observed, counts]
    left
    have := congrArg Counts.triggers counts
    simp [countable, observed, receivedMail, Mail.concat, Counts.plus] at *
    omega
  | humanOverride op =>
    apply Lost.outgrown
    unfold Outgrown
    rw [receive_observed, counts]
    right; left
    have := congrArg Counts.humanOps counts
    simp [countable, observed, receivedMail, Mail.concat, Counts.plus] at *
    omega
  | mandateUpdate patch =>
    apply Lost.outgrown
    unfold Outgrown
    rw [receive_observed, counts]
    right; right
    have := congrArg Counts.mandatePatches counts
    simp [countable, observed, receivedMail, Mail.concat, Counts.plus] at *
    omega

private theorem receive_outgrown {row : DigestRow} {s : AgentWorkflow} {signal : Signal} (more : Outgrown row s) :
    Outgrown row (s.receive signal) := by
  have first := toNat_le_u64Max s.cumulativeTriggersObserved
  have second := toNat_le_u64Max s.cumulativeHumanOpsObserved
  have third := toNat_le_u64Max s.cumulativeMandatePatchesObserved
  unfold Outgrown at more ⊢
  rw [receive_observed]
  simp only [observed, Counts.plus] at more ⊢
  omega

private theorem closing_step {ctx : Context} {event : Event} {await : Await} {next : Run} {effects : List Effect}
    (leaves : Closing await) (advances : Advances ctx event await (next, effects)) : Closing next.await := by
  obtain ⟨result, rfl, rfl, advanced⟩ := advances.result
  cases advanced with
  | left reason => cases leaves.2
  | stayed childHandles other stays =>
    refine ⟨?_, stays.asleep⟩
    apply Bool.eq_false_iff.mpr
    intro cycle
    have before := stays.cycle cycle
    rw [leaves.1] at before
    cases before
  | carried childHandles session other cycle fits =>
    rw [leaves.1] at cycle
    cases cycle
  | ended => cases leaves.1
  | handedOver => cases leaves.1

private theorem retiring_step {ctx : Context} {event : Event} {await : Await} {next : Run} {effects : List Effect}
    (gate : atGate await = true) (requested : ctx.state.retirementRequest.isSome = true)
    (advances : Advances ctx event await (next, effects)) : Closing next.await := by
  obtain ⟨result, rfl, rfl, advanced⟩ := advances.result
  cases advanced with
  | left reason =>
    obtain ⟨text, request⟩ := Option.isSome_iff_exists.mp requested
    unfold Context.leaveGate drainBuckets
    simp only [request]
    exact ⟨rfl, rfl⟩
  | stayed childHandles other stays => rw [stays.awake] at gate; cases gate
  | carried childHandles session other cycle fits => rw [awake_of_inCycle cycle] at gate; cases gate
  | ended => cases gate
  | handedOver => cases gate

/-- What a row has lost it never gets back. -/
theorem Lost.step {row : DigestRow} {run next : Run} {event : Event} {effects : List Effect} (lost : Lost row run)
    (stepped : workflow.step run event = some (next, effects)) : Lost row next := by
  obtain ⟨signal, -, -, rfl, -⟩ | ⟨-, advances⟩ := step_cases stepped
  · cases lost with
    | outgrown more => exact .outgrown (receive_outgrown more)
    | closing leaves => exact .closing leaves
    | retiring gate requested =>
      refine .retiring gate ?_
      cases signal <;> first | exact requested | rfl
  · cases lost with
    | outgrown more =>
      apply Lost.outgrown
      unfold Outgrown
      rw [(advances_conserves advances).2]
      exact more
    | closing leaves => exact .closing (closing_step leaves advances)
    | retiring gate requested => exact .closing (retiring_step gate requested advances)

/-- A quiescent read of an agent that nobody has asked to retire. -/
theorem steady_of_quiescent {run : Run} (valid : Valid run) (agentId : String)
    (quiescent : agentQuiescent run.state.snapshot = true) (unasked : run.state.retirementRequest = none) :
    Steady (AgentObservation.row ⟨agentId, run.state.snapshot⟩) run := by
  have parked := (parked_of_quiescent quiescent).1
  simp only [agentQuiescent, AgentWorkflow.snapshot, Bool.and_eq_true, beq_iff_eq] at quiescent
  obtain ⟨⟨⟨⟨⟨never, -⟩, past⟩, triggers⟩, humanOps⟩, patches⟩ := quiescent
  rw [valid.parked] at parked
  refine ⟨⟨?_, ?_⟩, rfl⟩
  · cases waiting : run.await with
    | waitForTick wakeAfter armed =>
      refine ⟨wakeAfter, ?_⟩
      have ticked : (run.state.tick == 0) = false := by
        rw [beq_eq_false_iff_ne]
        intro zero
        have past := of_decide_eq_true past
        rw [zero] at past
        exact absurd past (by decide)
      have arm := valid.armed wakeAfter armed waiting
      rw [never, ticked] at arm
      rw [arm]
      rfl
    | _ => rw [waiting] at parked; cases parked
  · unfold AgentWorkflow.signalled
    rw [List.length_eq_zero_iff.mp triggers, List.length_eq_zero_iff.mp humanOps, List.length_eq_zero_iff.mp patches,
      unasked]
    rfl

def SteadyAt (graph : Graph) (row : DigestRow) : Prop :=
  ∃ run, graph.workflows (graph.workflowId row.agentId) = some run ∧ Steady row run

def LostAt (graph : Graph) (row : DigestRow) : Prop :=
  ∃ run, graph.workflows (graph.workflowId row.agentId) = some run ∧ Lost row run

theorem SteadyAt.not_lost {graph : Graph} {row : DigestRow} (steady : SteadyAt graph row) : ¬ LostAt graph row := by
  rintro ⟨other, there, lost⟩
  obtain ⟨run, here, steady⟩ := steady
  have agree : run = other := Option.some.inj (here.symm.trans there)
  subst agree
  exact steady.not_lost lost

theorem LostAt.change {graph after : Graph} {event : GraphEvent} {row : DigestRow} (lost : LostAt graph row)
    (changes : Changes graph event after) : LostAt after row := by
  obtain ⟨run, running, lost⟩ := lost
  obtain ⟨next, continues, moved⟩ := changes.running running
  rw [← changes.grown.workflowId] at continues
  refine ⟨next, continues, ?_⟩
  obtain rfl | ⟨internal, effects, -, -, stepped⟩ | ⟨id, message, -, -, -, open_, rfl⟩ := moved
  · exact lost
  · exact lost.step stepped
  · exact lost.step (receive_step open_ message.signal)

/-- The message a delivery brings is counted where it arrives. -/
def Visible (graph : Graph) : GraphEvent → Bool
  | .deliver id => (graph.flight.find? (·.id == id)).all fun message =>
      (graph.workflows message.target).all fun run => countable run.state message.signal
  | _ => true

theorem SteadyAt.change {graph after : Graph} {event : GraphEvent} {row : DigestRow} (steady : SteadyAt graph row)
    (changes : Changes graph event after) (visible : Visible graph event = true) :
    SteadyAt after row ∨ LostAt after row := by
  obtain ⟨run, running, steady⟩ := steady
  obtain ⟨next, continues, moved⟩ := changes.running running
  rw [← changes.grown.workflowId] at continues
  obtain rfl | ⟨internal, effects, -, silent, stepped⟩ | ⟨id, message, rfl, found, target, -, rfl⟩ := moved
  · exact .inl ⟨next, continues, steady⟩
  · exact (steady.idle.still silent stepped).elim
  · refine .inr ⟨_, continues, steady.signalled ?_⟩
    rw [← target] at running
    simpa only [Visible, found, running, Option.all_some] using visible

/-- No workflow of the graph can move, and no message can reach one. -/
structure Quiet (graph : Graph) : Prop where
  idle : ∀ workflowId run, graph.workflows workflowId = some run → run.isOpen = true → Idle run
  undelivered : ∀ message ∈ graph.flight, ∀ run, graph.workflows message.target = some run → run.isOpen = false

/-- Only an open workflow that is not idle acts. -/
theorem not_idle_of_acts {run next : Run} {event : Event} {effects : List Effect}
    (internal : ∀ signal, event ≠ .signal signal) (stepped : workflow.step run event = some (next, effects)) :
    run.isOpen = true ∧ ¬ Idle run := by
  refine ⟨?_, fun idle => idle.still internal stepped⟩
  obtain ⟨signal, received, -⟩ | ⟨-, advances⟩ := step_cases stepped
  · exact (internal signal received).elim
  · apply isOpen_of_isClosed
    obtain ⟨result, rfl, rfl, advanced⟩ := advances.result
    generalize run.await = await at advanced
    cases advanced with
    | left reason => rfl
    | stayed childHandles other stays => exact stays.open_
    | carried childHandles session other cycle fits => cases await <;> first | rfl | cases cycle
    | ended => rfl
    | handedOver => rfl

theorem Quiet.change {graph after : Graph} {event : GraphEvent} (quiet : Quiet graph)
    (changes : Changes graph event after) : Quiet after := by
  cases changes with
  | acted internal running stepped launchable =>
    obtain ⟨open_, busy⟩ := not_idle_of_acts internal stepped
    exact (busy (quiet.idle _ _ running open_)).elim
  | registered agentId => exact ⟨quiet.idle, quiet.undelivered⟩
  | delivered sent found running open_ =>
    have closed := quiet.undelivered _ sent _ running
    rw [isOpen_of_isClosed open_] at closed
    cases closed
  | lost id => exact ⟨quiet.idle, fun message member => quiet.undelivered message (List.mem_filter.mp member).1⟩

theorem closed_change {graph after : Graph} {event : GraphEvent} {workflowId : String}
    (changes : Changes graph event after)
    (closed : ∃ run, graph.workflows workflowId = some run ∧ run.isOpen = false) :
    ∃ run, after.workflows workflowId = some run ∧ run.isOpen = false := by
  obtain ⟨run, running, closed⟩ := closed
  obtain ⟨next, continues, moved⟩ := changes.running running
  refine ⟨next, continues, ?_⟩
  obtain rfl | ⟨internal, effects, -, silent, stepped⟩ | ⟨id, message, -, -, -, open_, -⟩ := moved
  · exact closed
  · rw [(not_idle_of_acts silent stepped).1] at closed
    cases closed
  · rw [isOpen_of_isClosed open_] at closed
    cases closed

/-- What the window's digest says of the graph: while every row of it is steady and no agent
has been registered, nothing has been sent. -/
structure Watched (graph : Graph) (window : Window) (rows : List DigestRow) : Prop where
  listed : ∀ row ∈ rows, Known window.listed row.agentId
  held : ∀ row ∈ rows, SteadyAt graph row ∨ LostAt graph row
  frozen : (∀ row ∈ rows, SteadyAt graph row) → (∀ id ∈ graph.registry, Known window.listed id.toString) →
    graph.sent ≤ window.mark ∧ ∀ workflowId run, graph.workflows workflowId = some run → run.isOpen = true →
      ∃ row ∈ rows, workflowId = graph.workflowId row.agentId

theorem Watched.idle {graph : Graph} {window : Window} {rows : List DigestRow} (watched : Watched graph window rows)
    (steady : ∀ row ∈ rows, SteadyAt graph row) (known : ∀ id ∈ graph.registry, Known window.listed id.toString)
    {workflowId : String} {run : Run} (running : graph.workflows workflowId = some run) (open_ : run.isOpen = true) :
    Idle run := by
  obtain ⟨row, member, same⟩ := (watched.frozen steady known).2 workflowId run running open_
  obtain ⟨other, there, holds⟩ := steady row member
  rw [← same] at there
  have agree : run = other := Option.some.inj (running.symm.trans there)
  rw [agree]
  exact holds.idle

theorem Watched.change {graph after : Graph} {event : GraphEvent} {window : Window} {rows : List DigestRow}
    (watched : Watched graph window rows) (changes : Changes graph event after)
    (visible : Visible graph event = true) : Watched after window rows := by
  refine ⟨watched.listed, ?_, ?_⟩
  · intro row member
    rcases watched.held row member with steady | lost
    · exact steady.change changes visible
    · exact .inr (lost.change changes)
  · intro steady known
    have before : ∀ row ∈ rows, SteadyAt graph row := fun row member =>
      (watched.held row member).resolve_right fun lost => (steady row member).not_lost (lost.change changes)
    have registry : ∀ id ∈ graph.registry, Known window.listed id.toString :=
      fun id member => known id (changes.grown.registry member)
    have frozen := watched.frozen before registry
    have idle := fun workflowId run running => @Watched.idle _ _ _ watched before registry workflowId run running
    cases changes with
    | acted internal running stepped launchable =>
      obtain ⟨open_, busy⟩ := not_idle_of_acts internal stepped
      exact (busy (idle _ _ running open_)).elim
    | registered agentId => exact frozen
    | @delivered id message run sent found running open_ =>
      refine ⟨frozen.1, ?_⟩
      intro workflowId next continues opened
      by_cases same : workflowId = message.target
      · rw [same]
        exact frozen.2 message.target run running (isOpen_of_isClosed open_)
      · change (graph.setRun message.target _).workflows workflowId = some next at continues
        rw [setRun_workflows, if_neg same] at continues
        exact frozen.2 workflowId next continues opened
    | lost id => exact frozen

end Coral.Worker.Proofs

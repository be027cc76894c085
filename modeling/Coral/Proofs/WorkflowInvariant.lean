import Coral.Proofs.WorkflowStep

/-! What holds at every point of a workflow's life: it is parked exactly at the wake gate,
a cycle runs only below the step cap, and continued runs keep the agent's identity. -/

namespace Coral.Temporal.Proofs
open Coral.Library

structure Valid (run : Run) : Prop where
  parked : run.state.parked = atGate run.await
  never : run.state.isNever = run.input.mandate.isNever
  uncapped : inCycle run.await = true ∨ atGate run.await = true →
    stepCapRetireReason run.state.tick run.input.mandate.stepCap = none
  indexed : StepIndexed run.await
  armed : ∀ wakeAfter armed, run.await = .waitForTick wakeAfter armed →
    armed = armSelfWake run.state.isNever (run.state.tick == 0)

/-- The inputs of one workflow's runs differ in their carryover alone. -/
def SameAgent (input other : AgentInput) : Prop := { other with carryover := input.carryover } = input

theorem SameAgent.refl (input : AgentInput) : SameAgent input input := rfl

theorem SameAgent.of_eq {input other : AgentInput} {carryover : Option Carryover}
    (same : other = { input with carryover }) : SameAgent input other := by
  subst same
  rfl

theorem loopTop_valid {ctx : Context} {resume : Option Session} (awake : ctx.state.parked = false)
    (never : ctx.state.isNever = ctx.input.mandate.isNever) : Valid (ctx.loopTop resume).1 := by
  unfold Context.loopTop
  split
  · exact ⟨awake, never, by simp [Context.retire, Context.schedule, Context.awaiting, inCycle, atGate], trivial,
      by simp [Context.retire, Context.schedule, Context.awaiting]⟩
  · rename_i uncapped
    refine ⟨rfl, never, fun _ => uncapped, trivial, ?_⟩
    intro wakeAfter armed waiting
    cases waiting
    exact congrArg (armSelfWake · (ctx.state.tick == 0)) never.symm
  · rename_i uncapped
    split
    · exact ⟨awake, never, by simp [Context.retire, Context.schedule, Context.awaiting, inCycle, atGate], trivial,
        by simp [Context.retire, Context.schedule, Context.awaiting]⟩
    · exact ⟨awake, never, fun _ => uncapped, rfl,
        by simp [Context.decideStep, Context.schedule, Context.awaiting]⟩

theorem loopTop_input (ctx : Context) (resume : Option Session) :
    (ctx.loopTop resume).1.input = ctx.input ∧ (ctx.loopTop resume).1.workflowId = ctx.workflowId := by
  unfold Context.loopTop
  split
  · exact ⟨rfl, rfl⟩
  · exact ⟨rfl, rfl⟩
  · split <;> exact ⟨rfl, rfl⟩

theorem begin_valid (workflowId : String) (input : AgentInput) : Valid (begin workflowId input).1 := by
  unfold begin
  cases input.carryover <;> exact loopTop_valid rfl rfl

theorem begin_input (workflowId : String) (input : AgentInput) :
    (begin workflowId input).1.input = input ∧ (begin workflowId input).1.workflowId = workflowId :=
  loopTop_input _ _

theorem continueAsNew_input (ctx : Context) (next : AgentInput) :
    (ctx.continueAsNew next).1.input = next ∧ (ctx.continueAsNew next).1.workflowId = ctx.workflowId :=
  begin_input _ _

theorem leaveGate_valid {ctx : Context} (never : ctx.state.isNever = ctx.input.mandate.isNever)
    (uncapped : stepCapRetireReason ctx.state.tick ctx.input.mandate.stepCap = none) : Valid ctx.leaveGate.1 := by
  unfold Context.leaveGate
  dsimp only
  split
  · exact ⟨rfl, never, by simp [emit, Context.retire, Context.schedule, Context.awaiting, inCycle, atGate], trivial,
      by simp [emit, Context.retire, Context.schedule, Context.awaiting]⟩
  · exact ⟨rfl, never, fun _ => uncapped, trivial, by simp [emit, Context.schedule, Context.awaiting]⟩

theorem Valid.advance {run next : Run} {event : Event} {effects : List Effect} (valid : Valid run)
    (advances : Advances run.toContext event run.await (next, effects)) : Valid next := by
  obtain ⟨result, rfl, rfl, advanced⟩ := advances.result
  generalize waiting : run.await = await at advanced
  cases advanced with
  | left reason => exact leaveGate_valid valid.never (valid.uncapped (.inr (by rw [waiting]; rfl)))
  | @stayed _ _ _ next nextWake effects childHandles other stays =>
    have awake : run.state.parked = false := by rw [valid.parked, waiting, stays.awake]
    refine ⟨awake.trans stays.asleep.symm, valid.never, ?_, stays.indexed (waiting ▸ valid.indexed), ?_⟩
    · rintro (cycle | gate)
      · exact valid.uncapped (.inl (waiting ▸ stays.cycle cycle))
      · exact absurd (stays.asleep.symm.trans gate) (by simp)
    · intro wakeAfter armed gate
      have asleep := stays.asleep
      rw [show next = .waitForTick wakeAfter armed from gate] at asleep
      cases asleep
  | carried childHandles session other cycle fits => exact begin_valid _ _
  | ended =>
    have awake : run.state.parked = false := by rw [valid.parked, waiting]; rfl
    exact loopTop_valid awake valid.never
  | handedOver => exact begin_valid _ _

theorem receive_fixed (s : AgentWorkflow) (signal : Signal) :
    (s.receive signal).parked = s.parked ∧ (s.receive signal).isNever = s.isNever ∧
      (s.receive signal).tick = s.tick ∧ (s.receive signal).nextWake = s.nextWake ∧
      (s.receive signal).childHandles = s.childHandles := by
  cases signal <;> exact ⟨rfl, rfl, rfl, rfl, rfl⟩

theorem Valid.receive {run : Run} (valid : Valid run) (signal : Signal) :
    Valid { run with state := run.state.receive signal } := by
  obtain ⟨parked, never, tick, -, -⟩ := receive_fixed run.state signal
  exact ⟨parked.trans valid.parked, never.trans valid.never,
    fun busy => by simpa only [tick] using valid.uncapped busy, valid.indexed,
    fun wakeAfter armed gate => by simpa only [never, tick] using valid.armed wakeAfter armed gate⟩

theorem Valid.step {run next : Run} {event : Event} {effects : List Effect} (valid : Valid run)
    (stepped : workflow.step run event = some (next, effects)) : Valid next := by
  obtain ⟨signal, -, -, rfl, -⟩ | ⟨-, advances⟩ := step_cases stepped
  · exact valid.receive signal
  · exact valid.advance advances

theorem advance_input {ctx : Context} {event : Event} {await : Await} {next : Run} {effects : List Effect}
    (advances : Advances ctx event await (next, effects)) :
    SameAgent ctx.input next.input ∧ next.workflowId = ctx.workflowId := by
  obtain ⟨result, rfl, rfl, advanced⟩ := advances.result
  cases advanced with
  | left reason =>
    unfold Context.leaveGate
    dsimp only
    split <;> exact ⟨rfl, rfl⟩
  | stayed childHandles other stays => exact ⟨rfl, rfl⟩
  | carried childHandles session other cycle fits =>
    exact ⟨.of_eq (continueAsNew_input _ _).1, (continueAsNew_input _ _).2⟩
  | ended => exact ⟨.of_eq (loopTop_input _ _).1, (loopTop_input _ _).2⟩
  | handedOver => exact ⟨.of_eq (continueAsNew_input _ _).1, (continueAsNew_input _ _).2⟩

theorem step_input {run next : Run} {event : Event} {effects : List Effect}
    (stepped : workflow.step run event = some (next, effects)) :
    SameAgent run.input next.input ∧ next.workflowId = run.workflowId := by
  obtain ⟨signal, -, -, rfl, -⟩ | ⟨-, advances⟩ := step_cases stepped
  · exact ⟨rfl, rfl⟩
  · exact advance_input advances

theorem SameAgent.mandate {input other : AgentInput} (same : SameAgent input other) :
    other.mandate = input.mandate := by
  rw [← same]

theorem SameAgent.trans {input other third : AgentInput} (first : SameAgent input other)
    (second : SameAgent other third) : SameAgent input third := by
  unfold SameAgent at *
  rw [← first, ← second]

theorem run_input {run next : Run} {events : List Event} {effects : List Effect}
    (ran : workflow.run run events = some (next, effects)) : SameAgent run.input next.input :=
  workflow.run_invariant (fun next => SameAgent run.input next.input) (.refl _)
    (fun _ _ _ _ same stepped => same.trans (step_input stepped).1) ran

theorem run_valid {run next : Run} {events : List Event} {effects : List Effect} (valid : Valid run)
    (ran : workflow.run run events = some (next, effects)) : Valid next :=
  workflow.run_invariant Valid valid (fun _ _ _ _ valid stepped => valid.step stepped) ran

end Coral.Temporal.Proofs

import Coral.Proofs.PayloadBound
import Coral.Temporal.Quiescence

/-! What follows a force-idled cycle. Its agent resumes by itself unless its cadence is
`never`: the wake gate then arms no timer, whatever `next_wake` says. -/

namespace Coral.Temporal.Proofs
open Coral.Library

/-- The events that leave a force-idled cycle's work outstanding: receipts, and the commit
that ends the cycle. -/
def Outstanding (event : Event) : Prop :=
  (∃ signal, event = .signal signal) ∨ ∃ suggested, event = .reply .committed suggested

/-- While its dropped work is outstanding the agent never reads as quiescent, and the wake
gate it comes to has its timer armed. -/
def Resumes (run : Run) : Prop :=
  ∀ events next effects, (∀ event ∈ events, Outstanding event) → workflow.run run events = some (next, effects) →
    agentQuiescent next.state.snapshot = false ∧
      ∀ wakeAfter armed, next.await = .waitForTick wakeAfter armed → armed = true

theorem parked_of_quiescent {s : AgentWorkflow} (quiescent : agentQuiescent s.snapshot = true) :
    s.parked = true ∧ s.isNever = true := by
  simp only [agentQuiescent, AgentWorkflow.snapshot, Bool.and_eq_true] at quiescent
  exact ⟨quiescent.1.1.1.1.2, quiescent.1.1.1.1.1⟩

/-- Force-idle breaks to the commit, with the initial cadence pinned. -/
theorem forced_step {run forced : Run} {event : Event} {effects : List Effect} {bytes : Nat}
    (stepped : workflow.step run event = some (forced, effects)) (idled : Effect.forceIdle bytes ∈ effects) :
    forced.await = .commitTick ∧ forced.state.nextWake = some INITIAL_NEXT_WAKE := by
  obtain ⟨signal, -, -, -, rfl⟩ | ⟨-, advances⟩ := step_cases stepped
  · cases idled
  · obtain ⟨result, rfl, rfl, advanced⟩ := advances.result
    generalize run.await = await at advanced
    cases advanced with
    | left reason =>
      unfold Context.leaveGate at idled
      dsimp only at idled
      split at idled <;> simp [emit, Context.retire, Context.schedule] at idled
    | stayed childHandles other stays =>
      obtain ⟨commits, pinned⟩ := stays.forced bytes idled
      exact ⟨commits, pinned⟩
    | carried childHandles session other cycle fits =>
      rcases List.mem_cons.mp idled with impossible | later
      · cases impossible
      · exact (loopTop_unforced _ _ bytes later).elim
    | ended => exact (loopTop_unforced _ _ bytes idled).elim
    | handedOver =>
      rcases List.mem_cons.mp idled with impossible | later
      · cases impossible
      · exact (loopTop_unforced _ _ bytes later).elim

/-- An agent at its last commit before the step cap goes on to retire, never to park. -/
private structure Capped (mandate : Mandate) (run : Run) : Prop where
  kept : run.input.mandate = mandate
  course : run.await = .commitTick ∧ stepCapRetireReason (saturatingAdd run.state.tick 1) mandate.stepCap ≠ none ∨
    ∃ reason, run.await = .persistRetirement reason

private theorem loopTop_capped {ctx : Context} {resume : Option Session}
    (capped : stepCapRetireReason ctx.state.tick ctx.input.mandate.stepCap ≠ none) :
    ∃ reason, (ctx.loopTop resume).1.await = .persistRetirement reason := by
  cases reached : stepCapRetireReason ctx.state.tick ctx.input.mandate.stepCap with
  | none => exact (capped reached).elim
  | some reason =>
    refine ⟨reason, ?_⟩
    simp only [Context.loopTop, reached]
    rfl

private theorem Capped.step {mandate : Mandate} {run next : Run} {event : Event} {effects : List Effect}
    (capped : Capped mandate run) (outstanding : Outstanding event)
    (stepped : workflow.step run event = some (next, effects)) : Capped mandate next := by
  have kept : next.input.mandate = mandate := (step_input stepped).1.mandate.trans capped.kept
  obtain ⟨signal, -, -, rfl, -⟩ | ⟨silent, advances⟩ := step_cases stepped
  · refine ⟨kept, ?_⟩
    obtain ⟨commits, cap⟩ | retiring := capped.course
    · exact .inl ⟨commits, by rw [(receive_fixed run.state signal).2.2.1]; exact cap⟩
    · exact .inr retiring
  · obtain ⟨signal, rfl⟩ | ⟨suggested, rfl⟩ := outstanding
    · exact (silent signal rfl).elim
    · obtain ⟨commits, cap⟩ | ⟨reason, retiring⟩ := capped.course
      · rw [← capped.kept] at cap
        obtain ⟨result, rfl, rfl, advanced⟩ := advances.result
        rw [commits] at advanced
        refine ⟨kept, .inr ?_⟩
        cases advanced with
        | stayed childHandles other stays => exact (other rfl).elim
        | carried childHandles session other cycle fits => exact (other rfl).elim
        | ended => exact loopTop_capped cap
        | handedOver => exact loopTop_capped cap
      · rw [retiring] at advances
        cases advances with
        | stayed childHandles other stays => exact (other rfl).elim
        | carried childHandles session other cycle fits => exact (other rfl).elim

private theorem Capped.run {mandate : Mandate} {run next : Run} {events : List Event} {effects : List Effect}
    (capped : Capped mandate run) (outstanding : ∀ event ∈ events, Outstanding event)
    (ran : workflow.run run events = some (next, effects)) : Capped mandate next := by
  induction events generalizing run effects with
  | nil =>
    obtain ⟨rfl, -⟩ : run = next ∧ [] = effects := by simpa using ran
    exact capped
  | cons event events ih =>
    obtain ⟨middle, first, rest, stepped, continued, -⟩ := workflow.run_cons.mp ran
    exact ih (capped.step (outstanding event List.mem_cons_self) stepped)
      (fun other member => outstanding other (List.mem_cons_of_mem _ member)) continued

theorem resumes_of_cadence {run : Run} (valid : Valid run) (cadence : run.input.mandate.isNever = false) :
    Resumes run := by
  intro events next effects _ ran
  have never : next.state.isNever = false := by
    rw [(run_valid valid ran).never, (run_input ran).mandate, cadence]
  refine ⟨?_, ?_⟩
  · cases quiescent : agentQuiescent next.state.snapshot with
    | false => rfl
    | true => rw [(parked_of_quiescent quiescent).2] at never; cases never
  · intro wakeAfter armed waiting
    rw [(run_valid valid ran).armed wakeAfter armed waiting, never]
    rfl

theorem resumes_of_cap {run : Run} (valid : Valid run) (commits : run.await = .commitTick)
    (cap : stepCapRetireReason (saturatingAdd run.state.tick 1) run.input.mandate.stepCap ≠ none) : Resumes run := by
  intro events next effects outstanding ran
  have asleep : atGate next.await = false := by
    obtain ⟨-, ⟨commits, -⟩ | ⟨reason, retiring⟩⟩ := Capped.run ⟨rfl, .inl ⟨commits, cap⟩⟩ outstanding ran
    · rw [commits]; rfl
    · rw [retiring]; rfl
  refine ⟨?_, ?_⟩
  · cases quiescent : agentQuiescent next.state.snapshot with
    | false => rfl
    | true =>
      have parked := (run_valid valid ran).parked
      rw [(parked_of_quiescent quiescent).1, asleep] at parked
      cases parked
  · intro wakeAfter armed waiting
    rw [waiting] at asleep
    cases asleep

/-- Past its first cycle an agent of `never` cadence arms no timer. -/
theorem never_sleeps {run : Run} (commits : run.await = .commitTick)
    (never : run.input.mandate.isNever = true)
    (uncapped : stepCapRetireReason (saturatingAdd run.state.tick 1) run.input.mandate.stepCap = none) :
    ¬ Resumes run := by
  intro resumes
  have stepped : workflow.run run [.reply .committed false] = some run.bumpTick.waitForTick := by
    have ended : run.step (.reply .committed false) = some (run.bumpTick.loopTop none) := by
      simp only [Run.step, commits]
      rfl
    have parks : run.bumpTick.loopTop none = run.bumpTick.waitForTick := by
      unfold Context.loopTop
      rw [show stepCapRetireReason run.bumpTick.state.tick run.bumpTick.input.mandate.stepCap = none from uncapped]
    rw [Machine.run_cons]
    exact ⟨_, _, [], by rw [← parks]; exact ended, rfl, (List.append_nil _).symm⟩
  have armed := (resumes _ _ _ (by simp [Outstanding]) stepped).2 _ _ rfl
  have past : (saturatingAdd run.state.tick 1 == 0) = false := by
    rw [beq_eq_false_iff_ne]
    intro zero
    have value := congrArg UInt64.toNat zero
    rw [toNat_saturatingAdd] at value
    change min (run.state.tick.toNat + 1) u64Max = 0 at value
    unfold u64Max at value
    omega
  change armSelfWake run.input.mandate.isNever (saturatingAdd run.state.tick 1 == 0) = true at armed
  rw [never, past] at armed
  cases armed

/-- In every run, a force-idled cycle resumes by itself exactly when the cadence is not
`never`, or the step cap ends the agent before it parks. -/
theorem force_idle_resumes_iff (workflowId : String) (input : AgentInput) (events : List Event) (event : Event)
    (run forced : Run) (earlier effects : List Effect) (bytes : Nat)
    (ran : workflow.run (begin workflowId input).1 events = some (run, earlier))
    (stepped : workflow.step run event = some (forced, effects)) (idled : Effect.forceIdle bytes ∈ effects) :
    Resumes forced ↔ input.mandate.isNever = false ∨
      stepCapRetireReason (saturatingAdd forced.state.tick 1) input.mandate.stepCap ≠ none := by
  have valid : Valid forced := (run_valid (begin_valid workflowId input) ran).step stepped
  have mandate : forced.input.mandate = input.mandate := by
    rw [(step_input stepped).1.mandate, (run_input ran).mandate, (begin_input workflowId input).1]
  have commits := (forced_step stepped idled).1
  rw [← mandate]
  constructor
  · intro resumes
    cases never : forced.input.mandate.isNever with
    | false => exact .inl rfl
    | true => exact .inr fun uncapped => never_sleeps commits never uncapped resumes
  · rintro (cadence | cap)
    · exact resumes_of_cadence valid cadence
    · exact resumes_of_cap valid commits cap

theorem afterExecute_forced {ctx : Context} {session : Session} {step : UInt64} {action : Decision}
    {observation : Observation} (short : (session.push action observation).len < CYCLE_RUNAWAY_FUSE)
    (large : CAN_PAYLOAD_HARD_BYTES <
      (midCycleInput ctx.input ctx.state.encodeCarryover (session.push action observation)).toJson.byteLength) :
    ctx.afterExecute session step action observation true =
      emit (.forceIdle (midCycleInput ctx.input ctx.state.encodeCarryover
          (session.push action observation)).toJson.byteLength)
        (within ctx (some INITIAL_NEXT_WAKE) ctx.state.childHandles).commitTick := by
  simp only [Context.afterExecute, if_neg (Nat.not_le_of_lt short), if_true, carryDecision, if_pos large]
  rfl

theorem session_bytes (input : AgentInput) (base : Carryover) (session : Session) :
    session.toJson.byteLength ≤ (midCycleInput input base session).toJson.byteLength := by
  simp only [midCycleInput, AgentInput.toJson, Json.option_some, Carryover.toJson, Json.byteLength, Json.render,
    Json.renderMembers, Json.utf8Length_append]
  omega

theorem observation_bytes (seed : Seed) (action : Decision) (observation : Observation) :
    Json.utf8Length (Json.renderString observation.content) ≤
      (Session.mk seed [⟨action, observation⟩]).toJson.byteLength := by
  simp only [Session.toJson, Json.list, List.map_cons, List.map_nil, Step.toJson, Observation.toJson,
    Json.byteLength, Json.render, Json.renderItems, Json.renderMembers, Json.utf8Length_append]
  omega

/-- An agent of `never` cadence in its first cycle, about to read a note. -/
def readingAgent : AgentInput :=
  { AgentInput.newForTest ⟨⟨0⟩⟩ ⟨⟨1⟩⟩ "root" with mandate := .newNever "wait" none }

def readingCycle : List Event :=
  [.timerFired, .reply (.seedBuilt ⟨readingAgent.mandate, [], {}⟩) false,
    .reply (.decided (.read "notes/big.md")) false, .reply .logged false]

theorem large_note_sleeps (text : String) (long : CAN_PAYLOAD_HARD_BYTES < Json.utf8Length (Json.renderString text)) :
    ∃ run forced earlier effects bytes,
      workflow.run (begin "root" readingAgent).1 readingCycle = some (run, earlier) ∧
      workflow.step run (.reply (.fsRead (.success text)) true) = some (forced, effects) ∧
      Effect.forceIdle bytes ∈ effects ∧ ¬ Resumes forced := by
  let reading : Context := ⟨"root", readingAgent, { isNever := true }⟩
  let session : Session := .new ⟨readingAgent.mandate, [], {}⟩
  have long : CAN_PAYLOAD_HARD_BYTES < (session.push (.read "notes/big.md") (.success text)).toJson.byteLength :=
    Nat.lt_of_lt_of_le long (observation_bytes session.seed (.read "notes/big.md") (.success text))
  have large := Nat.lt_of_lt_of_le long (session_bytes reading.input reading.state.encodeCarryover _)
  let step : UInt64 := saturatingAdd (.ofNat session.len) 1
  have stepped : workflow.step (reading.awaiting (.executeAction session step (.read "notes/big.md") .readFs))
      (.reply (.fsRead (.success text)) true) =
        some (reading.afterExecute session step (.read "notes/big.md") (.success text) true) := rfl
  rw [afterExecute_forced (by simp [session, CYCLE_RUNAWAY_FUSE]) large] at stepped
  exact ⟨reading.awaiting (.executeAction session step (.read "notes/big.md") .readFs), _, _, _, _, rfl, stepped,
    List.mem_cons_self, never_sleeps rfl rfl (by decide)⟩

/-- A note of 1.5 MiB, read while continue-as-new is suggested: the cycle is dropped and
nothing wakes the agent again. -/
theorem never_agent_sleeps : ∃ run forced earlier effects bytes,
    workflow.run (begin "root" readingAgent).1 readingCycle = some (run, earlier) ∧
      workflow.step run (.reply (.fsRead (.success (letters CAN_PAYLOAD_HARD_BYTES))) true) = some (forced, effects) ∧
      Effect.forceIdle bytes ∈ effects ∧ ¬ Resumes forced :=
  large_note_sleeps _ (letters_bytes _)

theorem force_idle_resumes_iff_large_note : ∃ run forced effects bytes,
    workflow.step run (.reply (.fsRead (.success (letters CAN_PAYLOAD_HARD_BYTES))) true) = some (forced, effects) ∧
      Effect.forceIdle bytes ∈ effects ∧ (Resumes forced ↔ readingAgent.mandate.isNever = false ∨
        stepCapRetireReason (saturatingAdd forced.state.tick 1) readingAgent.mandate.stepCap ≠ none) := by
  obtain ⟨run, forced, earlier, effects, bytes, ran, stepped, idled, -⟩ := large_note_sleeps _ (letters_bytes _)
  exact ⟨run, forced, effects, bytes, stepped, idled,
    force_idle_resumes_iff "root" readingAgent _ _ run forced earlier effects bytes ran stepped idled⟩

end Coral.Temporal.Proofs

import Coral.Proofs.DecisionJournal
import Coral.Node.Agent

/-! How long an agent lives at most, on either host. The step cap bounds its cycles and the
runaway fuse the steps of each, so what is left to do shrinks with everything but a signal. -/

namespace Coral.Temporal.Proofs
open Coral.Library

/-- The cycles after which the agent retires. -/
def capOf (mandate : Mandate) : Nat := (mandate.stepCap.getD INTERIM_STEP_CAP).toNat

section Workflow

/-- A signal asks for nothing: it is anything else that takes a workflow on. -/
def drives : Event → Bool
  | .signal _ => false
  | _ => true

/-- What a whole cycle may take, from the wake gate to the next. -/
def cycleLength : Nat := 6 + 5 * CYCLE_RUNAWAY_FUSE

/-- What is left, at most, with this many cycles to come after the present one. -/
def leftAt (await : Await) (cycles : Nat) : Nat :=
  match await with
  | .closed _ => 0
  | .signalParent _ => 1
  | .persistRetirement _ => 2
  | .waitForTick _ _ => 2 + cycles * cycleLength + cycleLength
  | await => 2 + cycles * cycleLength + remaining await

def left (run : Run) : Nat := leftAt run.await (capOf run.input.mandate - run.state.tick.toNat - 1)

/-- The cycles that may still begin. -/
def cyclesLeft (run : Run) : Nat :=
  if atGate run.await then capOf run.input.mandate - run.state.tick.toNat
  else if inCycle run.await then capOf run.input.mandate - run.state.tick.toNat - 1
  else 0

theorem uncapped_iff {tick : UInt64} {mandate : Mandate} :
    stepCapRetireReason tick mandate.stepCap = none ↔ tick.toNat < capOf mandate := by
  unfold stepCapRetireReason capOf
  simp only
  split
  · rename_i capped
    have passed := UInt64.le_iff_toNat_le.mp capped
    simp only [reduceCtorEq, false_iff]
    omega
  · rename_i under
    exact iff_of_true rfl (Nat.lt_of_not_le fun reached => under (UInt64.le_iff_toNat_le.mpr reached))

theorem remaining_inCycle {await : Await} (cycle : inCycle await = true) : 4 ≤ remaining await ∧
    remaining await < cycleLength := by
  unfold cycleLength
  cases await <;> cases cycle <;> simp only [remaining, stepsLeft, CYCLE_RUNAWAY_FUSE] <;> try omega
  rename_i session step action executing
  have bounds := stage_bounds executing
  omega

theorem leftAt_inCycle {await : Await} (cycle : inCycle await = true) (cycles : Nat) :
    leftAt await cycles = 2 + cycles * cycleLength + remaining await := by
  cases await <;> cases cycle <;> rfl

/-- On the way out. -/
theorem leftAt_closing {await : Await} (asleep : atGate await = false) (out : inCycle await = false) (cycles : Nat) :
    leftAt await cycles = remaining await ∧ remaining await ≤ 2 := by
  cases await <;> cases asleep <;> cases out <;> exact ⟨rfl, by simp [remaining]⟩

theorem leftAt_shorter {await next : Await} (awake : atGate await = false) (asleep : atGate next = false)
    (cycle : inCycle next = true → inCycle await = true) (shorter : remaining next < remaining await) (cycles : Nat) :
    leftAt next cycles < leftAt await cycles := by
  cases working : inCycle await with
  | true =>
    have lasts := (remaining_inCycle working).1
    rw [leftAt_inCycle working]
    cases goesOn : inCycle next with
    | true =>
      rw [leftAt_inCycle goesOn]
      omega
    | false =>
      obtain ⟨same, few⟩ := leftAt_closing asleep goesOn cycles
      omega
  | false =>
    have out : inCycle next = false := by
      cases goesOn : inCycle next with
      | true => rw [cycle goesOn] at working; cases working
      | false => rfl
    rw [(leftAt_closing awake working cycles).1, (leftAt_closing asleep out cycles).1]
    exact shorter

/-- The session that goes on is a new one, or it has one more step than the one in execution. -/
theorem resume_session {ctx : Context} {suggested : Bool} {await : Await} {reply : Reply} {result : Run × List Effect}
    (resumed : ctx.resume suggested await reply = some result) {session : Session} {step : UInt64}
    (next : result.1.await = .decideStep session step) :
    await = .buildSeed ∨ ∃ before at_ action executing, await = .executeAction before at_ action executing ∧
      session.len = before.len + 1 ∧ session.len < CYCLE_RUNAWAY_FUSE := by
  have unresumed : ∀ ctx : Context, (ctx.loopTop none).1.await ≠ .decideStep session step := by
    intro ctx
    unfold Context.loopTop
    split
    · simp [Context.retire, Context.schedule, Context.awaiting]
    · simp [Context.waitForTick, Context.awaiting]
    · rename_i impossible
      cases impossible
  unfold Context.resume at resumed
  split at resumed
  case h_1 => exact .inl rfl
  case h_3 =>
    cases resumed
    unfold Context.afterLog at next
    split at next
    · cases next
    · split at next <;> cases next
  case h_4 before at_ action executing =>
    obtain ⟨answer, answered, shape⟩ := Option.map_eq_some_iff.mp resumed
    subst shape
    refine .inr ⟨before, at_, action, executing, rfl, ?_⟩
    cases answer with
    | asks childHandles request => cases next
    | fails => cases next
    | observes childHandles observation =>
      simp only [Context.afterExecute] at next
      split at next
      · cases next
      · rename_i unfused
        have pushed : session = before.push action observation := by
          split at next
          · split at next
            · cases next
            · change (begin _ _).1.await = _ at next
              unfold begin Context.loopTop at next
              simp only [midCycleInput, Option.bind_some] at next
              split at next
              · cases next
              · cases next
              · rename_i resumes
                split at next
                · cases next
                · cases next
                  exact (Option.some.inj resumes).symm
          · cases next
            rfl
        subst pushed
        exact ⟨Session.len_push .., Nat.lt_of_not_le unfused⟩
  case h_5 =>
    cases resumed
    unfold Context.cycleBoundary at next
    simp only at next
    split at next
    · exact (unresumed _ next).elim
    · exact (unresumed _ next).elim
  case h_6 =>
    cases resumed
    unfold Context.retired at next
    split at next <;> cases next
  all_goals
    cases resumed
    try cases next

/-- What the top of the loop waits for. -/
theorem loopTop_waits (ctx : Context) (resume : Option Session) :
    (ctx.loopTop resume).1.state.tick = ctx.state.tick ∧ (ctx.loopTop resume).1.input = ctx.input ∧
      ((∃ reason, (ctx.loopTop resume).1.await = .persistRetirement reason) ∨
        ctx.state.tick.toNat < capOf ctx.input.mandate ∧
          match resume with
          | none => ∃ wakeAfter armed, (ctx.loopTop resume).1.await = .waitForTick wakeAfter armed
          | some session => (ctx.loopTop resume).1.await = .decideStep session (.ofNat session.len)) := by
  unfold Context.loopTop
  split
  · exact ⟨rfl, rfl, .inl ⟨_, rfl⟩⟩
  · rename_i uncapped
    exact ⟨rfl, rfl, .inr ⟨uncapped_iff.mp uncapped, _, _, rfl⟩⟩
  · rename_i uncapped
    split
    · exact ⟨rfl, rfl, .inl ⟨_, rfl⟩⟩
    · exact ⟨rfl, rfl, .inr ⟨uncapped_iff.mp uncapped, rfl⟩⟩

theorem loopTop_left (ctx : Context) (resume : Option Session) :
    left (ctx.loopTop resume).1 ≤ 2 + (capOf ctx.input.mandate - ctx.state.tick.toNat) * cycleLength ∧
      cyclesLeft (ctx.loopTop resume).1 ≤ capOf ctx.input.mandate - ctx.state.tick.toNat := by
  obtain ⟨tick, input, waits⟩ := loopTop_waits ctx resume
  unfold left cyclesLeft
  rw [tick, input]
  rcases waits with ⟨reason, retires⟩ | ⟨under, waits⟩
  · rw [retires]
    exact ⟨Nat.le_add_right .., Nat.zero_le _⟩
  · have one_more : (capOf ctx.input.mandate - ctx.state.tick.toNat) * cycleLength =
        (capOf ctx.input.mandate - ctx.state.tick.toNat - 1) * cycleLength + cycleLength := by
      rw [← Nat.succ_mul, Nat.succ_eq_add_one, Nat.sub_add_cancel (by omega)]
    cases resume with
    | none =>
      obtain ⟨wakeAfter, armed, gate⟩ := waits
      rw [gate, one_more]
      exact ⟨Nat.le_of_eq (Nat.add_assoc ..), Nat.le_refl _⟩
    | some session =>
      have short := (@remaining_inCycle (.decideStep session (.ofNat session.len)) rfl).2
      rw [waits, one_more]
      simp only [leftAt, atGate, inCycle, Bool.false_eq_true, if_true, if_false]
      omega

theorem toNat_bump {tick : UInt64} {mandate : Mandate} (under : tick.toNat < capOf mandate) :
    (saturatingAdd tick 1).toNat = tick.toNat + 1 := by
  have bound : capOf mandate ≤ u64Max := toNat_le_u64Max _
  rw [toNat_saturatingAdd, show (1 : UInt64).toNat = 1 from rfl]
  omega

theorem seeds_eq_zero {effects : List Effect} (unseeded : ∀ effect ∈ effects, isSeed effect = false) :
    seeds effects = 0 := by
  refine List.countP_eq_zero.mpr ?_
  intro effect member seeds
  have none_ := unseeded effect member
  unfold isSeed at none_
  split at seeds
  · cases none_
  · cases seeds

theorem cyclesLeft_stays {run next : Run} (awake : atGate run.await = false) (asleep : atGate next.await = false)
    (cycle : inCycle next.await = true → inCycle run.await = true) (tick : next.state.tick = run.state.tick)
    (mandate : next.input.mandate = run.input.mandate) : cyclesLeft next ≤ cyclesLeft run := by
  unfold cyclesLeft
  rw [awake, asleep, tick, mandate]
  simp only [Bool.false_eq_true, if_false]
  by_cases goesOn : inCycle next.await = true
  · rw [if_pos goesOn, if_pos (cycle goesOn)]
  · rw [if_neg goesOn]
    exact Nat.zero_le _

/-- The commit of a cycle pays for what the next one may take. -/
theorem boundary_left {run next : Run} (waiting : run.await = .commitTick)
    (fewer : left next ≤ 2 + (capOf run.input.mandate - (run.state.tick.toNat + 1)) * cycleLength)
    (cycles : cyclesLeft next ≤ capOf run.input.mandate - (run.state.tick.toNat + 1)) :
    1 + left next ≤ left run ∧ cyclesLeft next ≤ cyclesLeft run := by
  rw [Nat.sub_add_eq] at fewer cycles
  constructor
  · conv => rhs; unfold left
    rw [waiting, leftAt_inCycle rfl]
    simp only [remaining]
    omega
  · conv => rhs; unfold cyclesLeft
    rw [waiting]
    exact cycles

theorem continueAsNew_carried (ctx : Context) {input : AgentInput} {carryover : Carryover}
    (carried : input.carryover = some carryover) : ∃ resumed : Context, resumed.state.tick = carryover.tick ∧
      resumed.input = input ∧ (ctx.continueAsNew input).1 = (resumed.loopTop carryover.inFlight).1 := by
  obtain ⟨resumed, tick, -, same, begins⟩ := begin_carried ctx.workflowId carried
  refine ⟨resumed, tick, same, ?_⟩
  change (begin ctx.workflowId input).1 = _
  rw [begins]

/-- Every step but a signal's shortens the life, and each cycle that begins is one fewer to come. -/
theorem step_left {run next : Run} {event : Event} {effects : List Effect} (valid : Valid run)
    (stepped : workflow.step run event = some (next, effects)) :
    (if drives event then 1 else 0) + left next ≤ left run ∧ seeds effects + cyclesLeft next ≤ cyclesLeft run := by
  obtain ⟨signal, rfl, -, rfl, rfl⟩ | ⟨unsignalled, advances⟩ := step_cases stepped
  · obtain ⟨-, -, tick, -, -⟩ := receive_fixed run.state signal
    unfold left cyclesLeft
    simp only [tick, drives, seeds, List.countP_nil]
    exact ⟨by simp, by simp⟩
  · have driven : drives event = true := by
      cases event with
      | signal signal => exact (unsignalled signal rfl).elim
      | _ => rfl
    rw [if_pos driven]
    have unseeded : atGate run.await = false → seeds effects = 0 := by
      intro awake
      apply seeds_eq_zero
      intro effect member
      cases seeding : isSeed effect with
      | false => rfl
      | true =>
        rw [(step_seeded stepped member seeding).2.1] at awake
        cases awake
    have under : inCycle run.await = true ∨ atGate run.await = true → run.state.tick.toNat < capOf run.input.mandate :=
      fun busy => uncapped_iff.mp (valid.uncapped busy)
    obtain ⟨result, rfl, rfl, advanced⟩ := advances.result
    generalize waiting : run.await = await at advanced under unseeded
    cases advanced with
    | left reason =>
      have below := under (.inr rfl)
      have short := (@remaining_inCycle .buildSeed rfl).2
      unfold left cyclesLeft Context.leaveGate
      rw [waiting]
      simp only
      split
      · simp only [emit, Context.retire, Context.schedule, Context.awaiting, leftAt, seeds, List.countP_cons]
        exact ⟨by omega, by simp [atGate, inCycle]⟩
      · simp only [emit, Context.schedule, Context.awaiting, leftAt, drainBuckets, seeds, List.countP_cons]
        refine ⟨by omega, ?_⟩
        simp only [atGate, inCycle, List.countP_nil, Bool.false_eq_true, if_true, if_false]
        omega
    | @stayed reply suggested _ then_ nextWake more childHandles other stays =>
      have shorter := leftAt_shorter stays.awake stays.asleep stays.cycle stays.shorter
        (capOf run.input.mandate - run.state.tick.toNat - 1)
      rw [unseeded stays.awake, Nat.zero_add]
      constructor
      · unfold left
        rw [waiting]
        exact Nat.one_add_le_iff.mpr shorter
      · refine cyclesLeft_stays ?_ stays.asleep ?_ rfl rfl
        · rw [waiting]
          exact stays.awake
        · rw [waiting]
          exact stays.cycle
    | @carried reply _ childHandles session other cycle fits =>
      have lasts := (remaining_inCycle cycle).1
      obtain ⟨resumed, tick, input, goes⟩ := continueAsNew_carried (within run.toContext run.state.nextWake childHandles)
        (show (midCycleInput run.input (within run.toContext run.state.nextWake childHandles).state.encodeCarryover
          session).carryover = some _ from rfl)
      obtain ⟨still, same, waits⟩ := loopTop_waits resumed (some session)
      have resumes : run.resume true run.await reply = some _ := stepped
      rw [unseeded (awake_of_inCycle cycle), Nat.zero_add, goes]
      rw [goes] at resumes
      generalize (resumed.loopTop (some session)).1 = final at still same waits resumes
      have tick : final.state.tick = run.state.tick := still.trans tick
      have mandate : final.input.mandate = run.input.mandate := by
        rw [same, input]
        rfl
      obtain ⟨asleep, shorter⟩ : atGate final.await = false ∧ remaining final.await < remaining await := by
        rcases waits with ⟨reason, retires⟩ | ⟨-, decides⟩
        · rw [retires]
          exact ⟨rfl, Nat.lt_of_lt_of_le (by decide : 2 < 4) lasts⟩
        · rw [decides]
          refine ⟨rfl, ?_⟩
          rw [waiting] at resumes
          rcases resume_session resumes decides with rfl | ⟨before, at_, action, executing, rfl, longer, short⟩
          · simp only [remaining, stepsLeft, CYCLE_RUNAWAY_FUSE]
            omega
          · have bounds := stage_bounds executing
            simp only [remaining, stepsLeft]
            omega
      constructor
      · unfold left
        rw [waiting, tick, mandate]
        exact Nat.one_add_le_iff.mpr (leftAt_shorter (awake_of_inCycle cycle) asleep (fun _ => cycle) shorter _)
      · refine cyclesLeft_stays ?_ asleep (fun _ => ?_) tick mandate
        · rw [waiting]
          exact awake_of_inCycle cycle
        · rw [waiting]
          exact cycle
    | ended =>
      have below := under (.inl rfl)
      have bumped : run.bumpTick.state.tick.toNat = run.state.tick.toNat + 1 := toNat_bump below
      obtain ⟨fewer, cycles⟩ := loopTop_left run.bumpTick none
      rw [bumped] at fewer cycles
      rw [unseeded rfl, Nat.zero_add]
      exact boundary_left waiting fewer cycles
    | handedOver =>
      have below := under (.inl rfl)
      have bumped : run.bumpTick.state.tick.toNat = run.state.tick.toNat + 1 := toNat_bump below
      obtain ⟨resumed, tick, input, goes⟩ := continueAsNew_carried run.bumpTick
        (show { run.input with carryover := some run.bumpTick.state.encodeCarryover }.carryover = some _ from rfl)
      obtain ⟨fewer, cycles⟩ := loopTop_left resumed none
      rw [tick, input, show run.bumpTick.state.encodeCarryover.tick.toNat = _ from bumped] at fewer cycles
      rw [unseeded rfl, Nat.zero_add]
      simp only
      rw [goes]
      exact boundary_left waiting fewer cycles

/-- Nothing more comes of it until it is signalled: a `never` agent past its first cycle. -/
def Dormant (run : Run) : Prop := (∃ wakeAfter, run.await = .waitForTick wakeAfter false) ∧ run.state.signalled = false

/-- An open workflow is waiting for something that may come. -/
theorem open_goesOn {run : Run} (open_ : isClosed run.await = false) :
    Dormant run ∨ ∃ event, drives event = true ∧ (workflow.step run event).isSome = true := by
  have resumes : ∀ reply : Reply, (run.resume false run.await reply).isSome = true →
      Dormant run ∨ ∃ event, drives event = true ∧ (workflow.step run event).isSome = true :=
    fun reply answered => .inr ⟨.reply reply false, rfl, answered⟩
  cases waiting : run.await with
  | closed outcome =>
    rw [waiting] at open_
    cases open_
  | waitForTick wakeAfter armed =>
    have stepped : ∀ event, workflow.step run event = Run.step run event := fun _ => rfl
    cases armed with
    | true =>
      refine .inr ⟨.timerFired, rfl, ?_⟩
      rw [stepped]
      simp only [Run.step, waiting, Option.isSome_some]
    | false =>
      cases signalled : run.state.signalled with
      | false => exact .inl ⟨⟨wakeAfter, waiting⟩, signalled⟩
      | true =>
        refine .inr ⟨.woken, rfl, ?_⟩
        rw [stepped]
        simp only [Run.step, waiting, signalled, if_true, Option.isSome_some]
  | signalParent reason => exact resumes .signalSent (by rw [waiting]; rfl)
  | executeAction session step action executing =>
    cases executing with
    | signalParent observation => exact resumes .signalSent (by rw [waiting]; rfl)
    | reconcileChildren sources => exact resumes (.reconcileFailed "") (by rw [waiting]; rfl)
    | signalRetire childRef replacement =>
      refine resumes .signalSent ?_
      rw [waiting]
      cases replacement <;> rfl
    | _ => exact resumes .failed (by rw [waiting]; rfl)
  | _ => exact resumes .failed (by rw [waiting]; rfl)

/-- The tick a workflow starts at. -/
def firstTick (input : AgentInput) : Nat := (input.carryover.map (·.tick.toNat)).getD 0

theorem begin_left (workflowId : String) (input : AgentInput) :
    left (begin workflowId input).1 ≤ 2 + (capOf input.mandate - firstTick input) * cycleLength ∧
      cyclesLeft (begin workflowId input).1 ≤ capOf input.mandate - firstTick input ∧
      seeds (begin workflowId input).2 = 0 := by
  have starts : ∀ (ctx : Context) (resume : Option Session), ctx.input = input → ctx.state.tick.toNat = firstTick input →
      left (ctx.loopTop resume).1 ≤ 2 + (capOf input.mandate - firstTick input) * cycleLength ∧
        cyclesLeft (ctx.loopTop resume).1 ≤ capOf input.mandate - firstTick input ∧ seeds (ctx.loopTop resume).2 = 0 := by
    intro ctx resume same tick
    obtain ⟨short, cycles⟩ := loopTop_left ctx resume
    rw [same, tick] at short cycles
    exact ⟨short, cycles, seeds_eq_zero (loopTop_unseeded ctx resume)⟩
  unfold begin
  cases carried : input.carryover with
  | none => exact starts _ _ rfl (by unfold firstTick; rw [carried]; rfl)
  | some carryover => exact starts _ _ rfl (by unfold firstTick; rw [carried]; rfl)

/-- A workflow's life, over all the runs that it continues as, is bounded by its step cap: so
many cycles and no more begin, and it is driven on only so often. Until it closes it can be
driven on, unless it sleeps without a timer. -/
theorem lifetime_bounded {workflowId : String} {input : AgentInput} {events : List Event} {run : Run}
    {effects : List Effect} (lived : lifetime workflowId input events = some (run, effects)) :
    seeds effects ≤ capOf input.mandate - firstTick input ∧
      events.countP drives ≤ 2 + (capOf input.mandate - firstTick input) * cycleLength ∧
      (isClosed run.await = true ∨ Dormant run ∨
        ∃ event, drives event = true ∧ (workflow.step run event).isSome = true) := by
  obtain ⟨⟨final, later⟩, ran, shape⟩ := Option.map_eq_some_iff.mp lived
  obtain ⟨rfl, rfl⟩ := Prod.mk.inj shape
  obtain ⟨short, cycles, unseeded⟩ := begin_left workflowId input
  have driven := workflow.run_budget Valid left (fun events _ => events.countP drives) rfl
    (fun _ _ _ _ => List.countP_append) (begin_valid workflowId input)
    (fun _ _ _ _ valid stepped => ⟨valid.step stepped, by simpa [List.countP_cons] using (step_left valid stepped).1⟩) ran
  have begun := workflow.run_budget Valid cyclesLeft (fun _ effects => seeds effects) rfl
    (fun _ _ _ _ => List.countP_append) (begin_valid workflowId input)
    (fun _ _ _ _ valid stepped => ⟨valid.step stepped, (step_left valid stepped).2⟩) ran
  refine ⟨?_, by omega, ?_⟩
  · rw [seeds, List.countP_append]
    change seeds (begin workflowId input).2 + seeds later ≤ _
    omega
  · cases closed : isClosed final.await with
    | true => exact .inl rfl
    | false => exact .inr (open_goesOn closed)

private def once : AgentInput := { AgentInput.newForTest ⟨⟨7⟩⟩ ⟨⟨9⟩⟩ "once" with mandate := .new "look" ⟨0⟩ (some 1) }

/-- The one cycle that the cap allows, and the retirement. -/
private def onceLife : List Event :=
  [.timerFired, .reply (.seedBuilt ⟨once.mandate, [.scheduledWake], {}⟩) false, .reply (.decided (.idle ⟨0⟩)) false,
    .reply .logged false, .reply .committed false, .reply .retirementPersisted false]

theorem lifetime_bounded_once : ∃ run effects, lifetime "once" once onceLife = some (run, effects) ∧
    run.await = .closed (.completed (.retired "step_cap (1) reached")) ∧ seeds effects = 1 ∧
    seeds effects ≤ capOf once.mandate - firstTick once ∧
    onceLife.countP drives ≤ 2 + (capOf once.mandate - firstTick once) * cycleLength := by
  have ends : (lifetime "once" once onceLife).map (fun lived => (lived.1.await, seeds lived.2)) =
      some (.closed (.completed (.retired "step_cap (1) reached")), 1) := by decide +kernel
  obtain ⟨⟨run, effects⟩, lived, last⟩ := Option.map_eq_some_iff.mp ends
  obtain ⟨await, seeded⟩ := Prod.mk.inj last
  obtain ⟨cycles, driven, -⟩ := lifetime_bounded lived
  exact ⟨run, effects, lived, await, seeded, cycles, driven⟩

end Workflow

section InProcess

def agentDrives : AgentEvent → Bool
  | .signal _ => false
  | _ => true

def begun (effects : List AgentEffect) : Nat := effects.countP fun
  | .buildSeed _ => true
  | _ => false

/-- A wake, a seed, and two events for each step. -/
def agentCycleLength : Nat := 2 + 2 * CYCLE_RUNAWAY_FUSE

/-- The tick of the present cycle is counted when the agent comes to its wake boundary. -/
def cyclesToCome (agent : Agent) : Nat := capOf agent.cfg - agent.tick.toNat

def agentLeft (agent : Agent) : Nat :=
  match agent.await with
  | .closed _ => 0
  | .persistRetirement _ => 1
  | .wake _ => 1 + cyclesToCome agent * agentCycleLength + agentCycleLength
  | .buildSeed => 1 + cyclesToCome agent * agentCycleLength + (1 + 2 * CYCLE_RUNAWAY_FUSE)
  | .decide session => 1 + cyclesToCome agent * agentCycleLength + 2 * stepsLeft session.len
  | .executeStep session _ => 1 + cyclesToCome agent * agentCycleLength + (2 * stepsLeft session.len - 1)

def agentCyclesLeft (agent : Agent) : Nat :=
  match agent.await with
  | .closed _ | .persistRetirement _ => 0
  | .wake _ => cyclesToCome agent + 1
  | _ => cyclesToCome agent

/-- What comes of a step within a cycle: no cycle begins, and this much is left of the present one. -/
structure Onward (agent : Agent) (spare : Nat) (result : Agent × List AgentEffect) : Prop where
  left : agentLeft result.1 ≤ 1 + cyclesToCome agent * agentCycleLength + spare
  cycles : agentCyclesLeft result.1 ≤ cyclesToCome agent
  quiet : begun result.2 = 0

variable {agent : Agent}

theorem Onward.of_same {other : Agent} {spare : Nat} {result : Agent × List AgentEffect} (cfg : other.cfg = agent.cfg)
    (tick : other.tick = agent.tick) (onward : Onward other spare result) : Onward agent spare result := by
  have same : cyclesToCome other = cyclesToCome agent := by
    unfold cyclesToCome
    rw [cfg, tick]
  obtain ⟨left, cycles, quiet⟩ := onward
  rw [same] at left cycles
  exact ⟨left, cycles, quiet⟩

theorem Onward.more {spare more : Nat} {result : Agent × List AgentEffect} (onward : Onward agent spare result)
    (enough : spare ≤ more) : Onward agent more result :=
  ⟨Nat.le_trans onward.left (by omega), onward.cycles, onward.quiet⟩

theorem close_onward (agent : Agent) (outcome : AgentOutcome) : Onward agent 0 (agent.close outcome) :=
  ⟨Nat.zero_le _, Nat.zero_le _, rfl⟩

theorem loopTop_onward (agent : Agent) : Onward agent 0 agent.loopTop := by
  unfold Agent.loopTop
  split
  · refine ⟨?_, Nat.zero_le _, rfl⟩
    simp only [agentLeft]
    omega
  · rename_i under
    have below : agent.tick.toNat < capOf agent.cfg :=
      Nat.lt_of_not_le fun reached => under (UInt64.le_iff_toNat_le.mpr reached)
    have bumped : (agent.tick + 1).toNat = agent.tick.toNat + 1 := by
      have bound : capOf agent.cfg ≤ u64Max := toNat_le_u64Max _
      rw [UInt64.toNat_add, show (1 : UInt64).toNat = 1 from rfl]
      unfold u64Max at bound
      exact Nat.mod_eq_of_lt (by omega)
    have one_more : cyclesToCome agent = capOf agent.cfg - (agent.tick.toNat + 1) + 1 := by
      unfold cyclesToCome
      omega
    refine ⟨?_, ?_, rfl⟩
    · simp only [agentLeft, cyclesToCome, bumped] at one_more ⊢
      rw [one_more, Nat.succ_mul]
      omega
    · simp only [agentCyclesLeft, cyclesToCome, bumped] at one_more ⊢
      omega

theorem endUnhealthy_onward (agent : Agent) (incident : HealthIncident) (written : Bool) :
    Onward agent 0 (agent.endUnhealthy incident written) := by
  unfold Agent.endUnhealthy
  split
  · refine .of_same ?_ ?_ (loopTop_onward _) <;> rfl
  · exact close_onward agent .failed

theorem decideFailed_onward (agent : Agent) (error : String) (clock : Clock) (written : Bool) :
    Onward agent 0 (agent.decideFailed error clock written) := by
  unfold Agent.decideFailed
  refine .of_same ?_ ?_ (endUnhealthy_onward _ _ written) <;> rfl

theorem decided_onward (agent : Agent) (session : Session) (action : Decision) (clock : Clock) (written : Bool) :
    Onward agent (2 * stepsLeft session.len - 1) (agent.decided session action clock written) := by
  unfold Agent.decided
  split
  · split
    · refine .more (.of_same ?_ ?_ (loopTop_onward _)) (Nat.zero_le _) <;> rfl
    · exact (close_onward agent .failed).more (Nat.zero_le _)
  · split
    · exact (close_onward agent .panicked).more (Nat.zero_le _)
    · exact ⟨Nat.le_refl _, Nat.le_refl _, rfl⟩

theorem recordToolFailures_fixed (clock : Clock) (failures : List ToolFailure) (reading : Nat)
    (exhausted : Option FailureKind) (agent : Agent) :
    (Agent.recordToolFailures clock failures reading exhausted agent).2.cfg = agent.cfg ∧
      (Agent.recordToolFailures clock failures reading exhausted agent).2.tick = agent.tick := by
  induction failures generalizing reading exhausted agent with
  | nil => exact ⟨rfl, rfl⟩
  | cons failure failures ih =>
    unfold Agent.recordToolFailures
    cases exhausted with
    | some kind => exact ih ..
    | none => exact ih ..

theorem recordCycleFailure_fixed (agent : Agent) (failure : StepFailure) (clock : Clock) :
    (agent.recordCycleFailure failure clock).2.cfg = agent.cfg ∧
      (agent.recordCycleFailure failure clock).2.tick = agent.tick := by
  unfold Agent.recordCycleFailure
  cases failure with
  | needsCorrection text =>
    simp only
    split <;> exact ⟨rfl, rfl⟩
  | toolError failures =>
    have fixed := recordToolFailures_fixed clock failures 0 none agent
    simp only
    split
    · rename_i same
      rw [same] at fixed
      exact fixed
    · rename_i same
      rw [same] at fixed
      exact fixed

theorem executed_onward (agent : Agent) (session : Session) (action : Decision) (outcome : StepOutcome) (clock : Clock)
    (written : Bool) :
    Onward agent (2 * stepsLeft session.len - 2) (agent.executed session action outcome clock written) := by
  unfold Agent.executed
  split
  rename_i incident after recorded
  obtain ⟨cfg, tick⟩ : after.cfg = agent.cfg ∧ after.tick = agent.tick := by
    split at recorded
    · rename_i failure failed
      have fixed := recordCycleFailure_fixed agent failure clock
      rw [recorded] at fixed
      exact fixed
    · cases recorded
      exact ⟨rfl, rfl⟩
  split
  · rename_i incident
    exact .more (.of_same cfg tick (endUnhealthy_onward after incident written)) (Nat.zero_le _)
  · simp only
    split
    · exact .more (.of_same cfg tick (loopTop_onward after)) (Nat.zero_le _)
    · rename_i unfused
      rw [Session.len_push] at unfused
      refine .of_same cfg tick ⟨?_, Nat.le_refl _, rfl⟩
      simp only [agentLeft, Session.len_push, stepsLeft]
      change 1 + cyclesToCome after * agentCycleLength + _ ≤ _
      omega

/-- Every step but a signal's leaves the agent with less to do. -/
theorem agent_step_left {llm : LlmDecide} {next : Agent} {event : AgentEvent} {effects : List AgentEffect}
    (stepped : (inProcess llm).step agent event = some (next, effects)) :
    (if agentDrives event then 1 else 0) + agentLeft next ≤ agentLeft agent ∧
      begun effects + agentCyclesLeft next ≤ agentCyclesLeft agent := by
  have within : ∀ {spare : Nat} {result : Agent × List AgentEffect}, Onward agent spare result →
      1 + cyclesToCome agent * agentCycleLength + spare < agentLeft agent → cyclesToCome agent ≤ agentCyclesLeft agent →
      result = (next, effects) →
        1 + agentLeft next ≤ agentLeft agent ∧ begun effects + agentCyclesLeft next ≤ agentCyclesLeft agent := by
    rintro spare result ⟨left, cycles, quiet⟩ shorter fewer rfl
    simp only at left cycles quiet
    exact ⟨by omega, by omega⟩
  have woken : ∀ armed, agent.await = .wake armed → ∀ triggers,
      1 + agentLeft ({ agent with triggers } : Agent).beginCycle.1 ≤ agentLeft agent ∧
        begun ({ agent with triggers } : Agent).beginCycle.2 +
          agentCyclesLeft ({ agent with triggers } : Agent).beginCycle.1 ≤ agentCyclesLeft agent := by
    intro armed waiting triggers
    unfold agentLeft agentCyclesLeft
    rw [waiting]
    simp only [Agent.beginCycle, cyclesToCome, begun, List.countP_cons, List.countP_nil, agentCycleLength, if_true]
    omega
  have positive : ∀ length, 1 ≤ stepsLeft length := fun length => Nat.le_max_left ..
  change agent.step llm event = _ at stepped
  unfold Agent.step at stepped
  split at stepped
  case h_1 => cases stepped
  case h_2 =>
    cases stepped
    exact ⟨by simp [agentDrives, agentLeft, cyclesToCome], by simp [begun, agentCyclesLeft, cyclesToCome]⟩
  case h_3 armed waiting =>
    split at stepped
    · cases stepped
    · cases stepped
      exact woken armed waiting agent.triggers
  case h_4 waiting =>
    split at stepped
    · cases stepped
      exact woken true waiting [.scheduledWake]
    · cases stepped
  case h_5 seed waiting =>
    cases stepped
    unfold agentLeft agentCyclesLeft
    rw [waiting]
    simp only [agentDrives, if_true, begun, List.countP_nil, Nat.zero_add]
    refine ⟨?_, Nat.le_refl _⟩
    simp only [cyclesToCome, stepsLeft, Session.len_new, CYCLE_RUNAWAY_FUSE]
    omega
  case h_6 waiting =>
    have spent : 1 + cyclesToCome agent * agentCycleLength + 0 < agentLeft agent := by
      unfold agentLeft
      rw [waiting]
      simp only
      omega
    refine within (close_onward agent .failed) spent ?_ (Option.some.inj stepped)
    unfold agentCyclesLeft
    rw [waiting]
  case h_7 session answers clock written waiting =>
    have spent : 1 + cyclesToCome agent * agentCycleLength + (2 * stepsLeft session.len - 1) < agentLeft agent := by
      have one := positive session.len
      unfold agentLeft
      rw [waiting]
      simp only
      omega
    have fewer : cyclesToCome agent ≤ agentCyclesLeft agent := by
      unfold agentCyclesLeft
      rw [waiting]
    split at stepped
    · exact within ((decideFailed_onward agent _ clock written).more (Nat.zero_le _)) spent fewer (Option.some.inj stepped)
    · exact within (decided_onward agent session _ clock written) spent fewer (Option.some.inj stepped)
  case h_8 session action outcome clock written waiting =>
    have one := positive session.len
    refine within (executed_onward agent session action outcome clock written) ?_ ?_ (Option.some.inj stepped)
    · unfold agentLeft
      rw [waiting]
      simp only
      omega
    · unfold agentCyclesLeft
      rw [waiting]
  case h_12 => cases stepped
  all_goals
    rename_i waiting
    cases stepped
    unfold agentLeft agentCyclesLeft
    rw [waiting]
    simp only [agentDrives, Bool.false_eq_true, if_true, if_false, begun, List.countP_cons, List.countP_nil]
    omega

/-- The agent is waiting for a trigger, and no deadline is set. -/
def AgentDormant (agent : Agent) : Prop := agent.await = .wake false ∧ agent.triggers = []

theorem agent_goesOn (llm : LlmDecide) (open_ : ∀ outcome, agent.await ≠ .closed outcome) :
    AgentDormant agent ∨ ∃ event, agentDrives event = true ∧ ((inProcess llm).step agent event).isSome = true := by
  have steps : ∀ event, agentDrives event = true → (agent.step llm event).isSome = true →
      AgentDormant agent ∨ ∃ event, agentDrives event = true ∧ ((inProcess llm).step agent event).isSome = true :=
    fun event drives stepped => .inr ⟨event, drives, stepped⟩
  cases waiting : agent.await with
  | closed outcome => exact (open_ outcome waiting).elim
  | wake armed =>
    cases armed with
    | true =>
      cases queue : agent.triggers with
      | nil => exact steps .deadline rfl (by unfold Agent.step; rw [waiting, queue]; rfl)
      | cons trigger triggers => exact steps .nonempty rfl (by unfold Agent.step; rw [waiting, queue]; rfl)
    | false =>
      cases queue : agent.triggers with
      | nil => exact .inl ⟨waiting, queue⟩
      | cons trigger triggers => exact steps .nonempty rfl (by unfold Agent.step; rw [waiting, queue]; rfl)
  | buildSeed => exact steps (.seedBuilt none) rfl (by unfold Agent.step; rw [waiting]; rfl)
  | decide session =>
    refine steps (.answered (fun _ _ _ => .error (.other "")) (fun _ => ⟨0⟩) true) rfl ?_
    unfold Agent.step
    rw [waiting]
    simp only
    split <;> rfl
  | executeStep session action =>
    exact steps (.executed none (fun _ => ⟨0⟩) true) rfl (by unfold Agent.step; rw [waiting]; rfl)
  | persistRetirement reason => exact steps (.retirementPersisted false) rfl (by unfold Agent.step; rw [waiting]; rfl)

/-- The in-process host runs as many cycles as the step cap allows and no more, and comes to
an end after so many events, unless it is left waiting for a trigger. -/
theorem inProcess_bounded {llm : LlmDecide} {cfg : Mandate} {health : HealthTracker} {triggers : List Trigger}
    {events : List AgentEvent} {agent : Agent} {effects : List AgentEffect}
    (ran : (inProcess llm).run (Agent.start cfg health triggers).1 events = some (agent, effects)) :
    begun effects ≤ capOf cfg ∧ events.countP agentDrives ≤ 1 + capOf cfg * agentCycleLength ∧
      ((∃ outcome, agent.await = .closed outcome) ∨ AgentDormant agent ∨
        ∃ event, agentDrives event = true ∧ ((inProcess llm).step agent event).isSome = true) := by
  obtain ⟨short, cycles, -⟩ : Onward ⟨cfg, triggers, cfg.idlePeriod.getD ⟨0⟩, health, 0, [], .buildSeed⟩ 0
      (Agent.start cfg health triggers) := loopTop_onward _
  rw [show cyclesToCome ⟨cfg, triggers, cfg.idlePeriod.getD ⟨0⟩, health, 0, [], .buildSeed⟩ = capOf cfg from
    Nat.sub_zero _] at short cycles
  have driven := (inProcess llm).run_budget (fun _ => True) agentLeft (fun events _ => events.countP agentDrives) rfl
    (fun _ _ _ _ => List.countP_append) trivial
    (fun _ _ _ _ _ stepped => ⟨trivial, by simpa [List.countP_cons] using (agent_step_left stepped).1⟩) ran
  have seeded := (inProcess llm).run_budget (fun _ => True) agentCyclesLeft (fun _ effects => begun effects) rfl
    (fun _ _ _ _ => List.countP_append) trivial
    (fun _ _ _ _ _ stepped => ⟨trivial, (agent_step_left stepped).2⟩) ran
  refine ⟨by omega, by omega, ?_⟩
  by_cases closed : ∃ outcome, agent.await = .closed outcome
  · exact .inl closed
  · exact .inr (agent_goesOn llm (not_exists.mp closed))

private def mute : LlmDecide := ⟨.single, fun _ => [], fun _ => .error "no decision"⟩

private def shortLived : Mandate := .new "look" ⟨0⟩ (some 1)

/-- The provider is down in the one cycle that the cap allows. -/
private def muteLife : List AgentEvent :=
  [.deadline, .seedBuilt (some ⟨shortLived, [.scheduledWake], {}⟩),
    .answered (fun _ _ _ => .error (.transport "down")) (fun _ => ⟨0⟩) true, .retirementPersisted true]

theorem inProcess_bounded_mute : ∃ agent effects,
    (inProcess mute).run (Agent.start shortLived ⟨⟨2, 3⟩, .healthy ⟨0⟩, 0, 0⟩ []).1 muteLife = some (agent, effects) ∧
    agent.await = .closed (.retired "step_cap (1) reached") ∧ begun effects ≤ capOf shortLived ∧
    muteLife.countP agentDrives ≤ 1 + capOf shortLived * agentCycleLength := by
  have ends : ((inProcess mute).run (Agent.start shortLived ⟨⟨2, 3⟩, .healthy ⟨0⟩, 0, 0⟩ []).1 muteLife).map (·.1.await) =
      some (.closed (.retired "step_cap (1) reached")) := by decide +kernel
  obtain ⟨⟨agent, effects⟩, ran, await⟩ := Option.map_eq_some_iff.mp ends
  obtain ⟨cycles, driven, -⟩ := inProcess_bounded ran
  exact ⟨agent, effects, ran, await, cycles, driven⟩

end InProcess

end Coral.Temporal.Proofs

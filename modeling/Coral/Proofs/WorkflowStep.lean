import Coral.Temporal.Workflow

/-! What one step of a run can do, said once: receive a signal, leave the wake gate, go on
within a cycle, hand the cycle over to a continued run, or end it. -/

namespace Coral.Temporal.Proofs
open Coral.Library

def inCycle : Await → Bool
  | .buildSeed | .decideStep _ _ | .logDecision _ _ _ | .executeAction _ _ _ _ | .commitTick => true
  | _ => false

def atGate : Await → Bool
  | .waitForTick _ _ => true
  | _ => false

def isClosed : Await → Bool
  | .closed _ => true
  | _ => false

theorem awake_of_inCycle {await : Await} (cycle : inCycle await = true) : atGate await = false := by
  cases await with
  | waitForTick wakeAfter armed => cases cycle
  | _ => rfl

/-- The decision-log index an `await` carries follows the session. -/
def StepIndexed : Await → Prop
  | .decideStep session step | .logDecision session step _ => step = .ofNat session.len
  | .executeAction session step _ _ => step = saturatingAdd (.ofNat session.len) 1
  | _ => True

/-- Neither a drain nor a hand-over. -/
def plain : Effect → Bool
  | .drained _ | .continueAsNew _ => false
  | _ => true

def isSeed : Effect → Bool
  | .activity (.buildSeed _ _ _ _ _) => true
  | _ => false

/-- The work of a cycle, its commit included. -/
def isWork : Effect → Bool
  | .activity (.persistRetirement _ _) | .signalWorkflow _ (.externalSignal (.childRetired _ _ _)) => false
  | .activity _ | .startChild _ _ | .signalWorkflow _ _ => true
  | _ => false

/-- What is left to do once the retirement is on disk. -/
def closing : Effect → Bool
  | .signalWorkflow _ (.externalSignal (.childRetired _ _ _)) | .closed _ => true
  | _ => false

/-- Whether a step that stays in its cycle, or goes on closing, may ask for it on the way to an `await`. -/
def belongs : Await → Effect → Bool
  | .commitTick, .activity (.commitTick _ _) => true
  | _, .activity (.commitTick _ _) | _, .activity (.buildSeed _ _ _ _ _) | _, .activity (.persistRetirement _ _) => false
  | .closed _, effect | .signalParent _, effect => closing effect
  | _, _ => true

/-- How many replies an action still waits for, at most. -/
def stage : Executing → Nat
  | .signalRetire _ (some _) => 3
  | .registerChild _ _ | .persistOutput => 2
  | _ => 1

def stepsLeft (length : Nat) : Nat := max 1 (CYCLE_RUNAWAY_FUSE - length)

/-- How many steps are left, at most, to a workflow that is asked to retire. -/
def remaining : Await → Nat
  | .closed _ => 0
  | .signalParent _ => 1
  | .persistRetirement _ => 2
  | .waitForTick _ _ => 3
  | .commitTick => 4
  | .executeAction session _ _ executing => 4 + 5 * (stepsLeft session.len - 1) + stage executing
  | .logDecision session _ _ => 3 + 5 * stepsLeft session.len
  | .decideStep session _ => 4 + 5 * stepsLeft session.len
  | .buildSeed => 5 + 5 * CYCLE_RUNAWAY_FUSE

theorem stage_bounds (executing : Executing) : 1 ≤ stage executing ∧ stage executing ≤ 3 := by
  unfold stage
  split <;> omega

/-- All that changes in the workflow's state within a cycle. -/
def within (ctx : Context) (nextWake : Option Duration) (childHandles : List AgentRef) : Context :=
  { ctx with state := { ctx.state with nextWake, childHandles } }

@[simp] theorem within_self (ctx : Context) : within ctx ctx.state.nextWake ctx.state.childHandles = ctx := rfl

/-- The rows of a step that stays in its cycle, or goes on closing the workflow. -/
structure Stays (reply : Reply) (await next : Await) (nextWake : Option Duration) (effects : List Effect) : Prop where
  awake : atGate await = false
  open_ : isClosed await = false
  asleep : atGate next = false
  cycle : inCycle next = true → inCycle await = true
  indexed : StepIndexed await → StepIndexed next
  quiet : ∀ effect ∈ effects, plain effect = true
  forced : ∀ bytes, Effect.forceIdle bytes ∈ effects → next = .commitTick ∧ nextWake = some INITIAL_NEXT_WAKE
  leaving : ∀ reason, next = .persistRetirement reason ∨ next = .signalParent reason → await = .persistRetirement reason
  ends : ∀ outcome, Effect.closed outcome ∈ effects → outcome = .failed ∧ reply = .failed ∨
    ∃ reason, outcome = .completed (.retired reason) ∧ (await = .persistRetirement reason ∨ await = .signalParent reason)
  closes : ∀ outcome, next = .closed outcome → Effect.closed outcome ∈ effects
  asked : ∀ effect ∈ effects, belongs next effect = true
  shorter : remaining next < remaining await

inductive Advances (ctx : Context) : Event → Await → Run × List Effect → Prop where
  | left {event wakeAfter armed}
      (reason : event = .woken ∧ ctx.state.signalled = true ∨ event = .timerFired ∧ armed = true) :
      Advances ctx event (.waitForTick wakeAfter armed) ctx.leaveGate
  | stayed {reply suggested await next nextWake effects} (childHandles : List AgentRef) (other : reply ≠ .committed)
      (stays : Stays reply await next nextWake effects) :
      Advances ctx (.reply reply suggested) await ((within ctx nextWake childHandles).awaiting next, effects)
  | carried {reply await} (childHandles : List AgentRef) (session : Session) (other : reply ≠ .committed)
      (cycle : inCycle await = true)
      (fits : (midCycleInput ctx.input (within ctx ctx.state.nextWake childHandles).state.encodeCarryover
        session).toJson.byteLength ≤ CAN_PAYLOAD_HARD_BYTES) :
      Advances ctx (.reply reply true) await ((within ctx ctx.state.nextWake childHandles).continueAsNew
        (midCycleInput ctx.input (within ctx ctx.state.nextWake childHandles).state.encodeCarryover session))
  | ended : Advances ctx (.reply .committed false) .commitTick (ctx.bumpTick.loopTop none)
  | handedOver : Advances ctx (.reply .committed true) .commitTick
      (ctx.bumpTick.continueAsNew { ctx.input with carryover := some ctx.bumpTick.state.encodeCarryover })

/-- For a case split, whose result may not be a pair of its own. -/
theorem Advances.result {ctx : Context} {event : Event} {await : Await} {next : Run} {effects : List Effect}
    (advances : Advances ctx event await (next, effects)) :
    ∃ result : Run × List Effect, next = result.1 ∧ effects = result.2 ∧ Advances ctx event await result :=
  ⟨(next, effects), rfl, rfl, advances⟩

theorem Advances.stay {ctx : Context} {reply : Reply} {suggested : Bool} {await : Await}
    {result : Run × List Effect} (next : Await) (nextWake : Option Duration) (childHandles : List AgentRef)
    (other : reply ≠ .committed) (arrives : result.1 = (within ctx nextWake childHandles).awaiting next)
    (stays : Stays reply await next nextWake result.2) : Advances ctx (.reply reply suggested) await result := by
  obtain ⟨run, effects⟩ := result
  subst arrives
  exact .stayed childHandles other stays

/-- A step from one place of the cycle to another. -/
theorem Stays.goOn {reply : Reply} {await next : Await} {nextWake : Option Duration} {effects : List Effect}
    (cycle : inCycle await = true) (goes : inCycle next = true) (indexed : StepIndexed await → StepIndexed next)
    (quiet : ∀ effect ∈ effects, plain effect = true)
    (forced : ∀ bytes, Effect.forceIdle bytes ∈ effects → next = .commitTick ∧ nextWake = some INITIAL_NEXT_WAKE)
    (unclosed : ∀ outcome, Effect.closed outcome ∉ effects) (asked : ∀ effect ∈ effects, belongs next effect = true)
    (shorter : remaining next < remaining await) : Stays reply await next nextWake effects where
  awake := awake_of_inCycle cycle
  open_ := by
    cases await with
    | closed outcome => cases cycle
    | _ => rfl
  asleep := awake_of_inCycle goes
  cycle := fun _ => cycle
  indexed := indexed
  quiet := quiet
  forced := forced
  leaving := by rintro reason (rfl | rfl) <;> cases goes
  ends := fun outcome closed => (unclosed outcome closed).elim
  closes := by
    rintro outcome rfl
    cases goes
  asked := asked
  shorter := shorter

private theorem schedule_advances (ctx : Context) {reply : Reply} {suggested : Bool} {await next : Await}
    {activity : Activity} (other : reply ≠ .committed) (cycle : inCycle await = true) (goes : inCycle next = true)
    (indexed : StepIndexed await → StepIndexed next) (asked : belongs next (.activity activity) = true)
    (shorter : remaining next < remaining await) :
    Advances ctx (.reply reply suggested) await (ctx.schedule activity next) :=
  .stay _ ctx.state.nextWake ctx.state.childHandles other rfl
    (.goOn cycle goes indexed (by simp [Context.schedule, plain]) (by simp [Context.schedule])
      (by simp [Context.schedule]) (by simpa [Context.schedule] using asked) shorter)

private theorem closing_shorter {await : Await} {outcome : Outcome} (open_ : isClosed await = false) :
    remaining (.closed outcome) < remaining await := by
  cases await with
  | closed other => cases open_
  | executeAction session step action executing =>
    have bounds := stage_bounds executing
    simp only [remaining]
    omega
  | _ =>
    simp only [remaining]
    omega

private theorem close_advances (ctx : Context) {reply : Reply} {suggested : Bool} {await : Await}
    (outcome : Outcome) (other : reply ≠ .committed) (awake : atGate await = false) (open_ : isClosed await = false)
    (ends : outcome = .failed ∧ reply = .failed ∨ ∃ reason, outcome = .completed (.retired reason) ∧
      (await = .persistRetirement reason ∨ await = .signalParent reason)) :
    Advances ctx (.reply reply suggested) await (ctx.close outcome) :=
  .stay (.closed outcome) ctx.state.nextWake ctx.state.childHandles other rfl
    ⟨awake, open_, rfl, by simp [inCycle], fun _ => trivial, by simp [Context.close, plain], by simp [Context.close],
      by simp, fun other closed => by
        obtain rfl : other = outcome := by simpa [Context.close] using closed
        exact ends, by
          rintro other closed
          cases closed
          exact List.mem_cons_self, by simp [Context.close, belongs, closing], closing_shorter open_⟩

theorem carry_fits {payload : Nat} {warn : Bool} (decided : carryDecision payload = .carry warn) :
    payload ≤ CAN_PAYLOAD_HARD_BYTES := by
  unfold carryDecision at decided
  split at decided
  · cases decided
  · omega

/-- Below the fuse the log index is the session's length and does not saturate. -/
theorem saturatingAdd_length {length : Nat} (short : length + 1 < CYCLE_RUNAWAY_FUSE) :
    saturatingAdd (.ofNat length) 1 = .ofNat (length + 1) := by
  unfold CYCLE_RUNAWAY_FUSE at short
  apply UInt64.toNat_inj.mp
  have small : ∀ value : Nat, value < 50000 → (UInt64.ofNat value).toNat = value :=
    fun value bound => UInt64.toNat_ofNat_of_lt' (by unfold UInt64.size; omega)
  rw [toNat_saturatingAdd, small _ short, small _ (by omega)]
  show min (length + 1) u64Max = length + 1
  unfold u64Max
  omega

private theorem commit_shorter {await : Await} {session : Session} {step : UInt64} {action : Decision}
    {executing : Executing} (waits : await = .executeAction session step action executing) :
    remaining .commitTick < remaining await := by
  have bounds := stage_bounds executing
  subst waits
  simp only [remaining]
  omega

theorem afterExecute_advances (ctx : Context) (childHandles : List AgentRef) (session : Session) (step : UInt64)
    (action : Decision) (executing : Executing) (observation : Observation) {reply : Reply} (suggested : Bool)
    (other : reply ≠ .committed) :
    Advances ctx (.reply reply suggested) (.executeAction session step action executing)
      ((within ctx ctx.state.nextWake childHandles).afterExecute session step action observation suggested) := by
  simp only [Context.afterExecute]
  by_cases fused : CYCLE_RUNAWAY_FUSE ≤ (session.push action observation).len
  · rw [if_pos fused]
    exact .stay .commitTick ctx.state.nextWake childHandles other rfl
      (.goOn rfl rfl (fun _ => trivial) (by simp [emit, Context.commitTick, Context.schedule, plain])
        (by simp [emit, Context.commitTick, Context.schedule]) (by simp [emit, Context.commitTick, Context.schedule])
        (by simp [emit, Context.commitTick, Context.schedule, belongs]) (commit_shorter rfl))
  · rw [if_neg fused]
    cases suggested with
    | false =>
      have indexed : step = saturatingAdd (.ofNat session.len) 1 →
          step = .ofNat (session.push action observation).len := by
        rintro rfl
        rw [Session.len_push] at fused ⊢
        exact saturatingAdd_length (Nat.lt_of_not_le fused)
      exact .stay (.decideStep _ step) ctx.state.nextWake childHandles other rfl
        (.goOn rfl rfl indexed (by simp [Context.decideStep, Context.schedule, plain])
          (by simp [Context.decideStep, Context.schedule]) (by simp [Context.decideStep, Context.schedule])
          (by simp [Context.decideStep, Context.schedule, belongs])
          (by
            have bounds := stage_bounds executing
            rw [Session.len_push] at fused
            simp only [remaining, Session.len_push, stepsLeft]
            omega))
    | true =>
      rw [if_pos rfl]
      split
      · exact .stay .commitTick (some INITIAL_NEXT_WAKE) childHandles other rfl
          (.goOn rfl rfl (fun _ => trivial) (by simp [emit, Context.commitTick, Context.schedule, plain])
            (fun _ _ => ⟨rfl, rfl⟩) (by simp [emit, Context.commitTick, Context.schedule])
            (by simp [emit, Context.commitTick, Context.schedule, belongs]) (commit_shorter rfl))
      · rename_i decided
        exact .carried childHandles _ other rfl (carry_fits decided)

private theorem executeAction_plain {ctx : Context} {action : Decision} {executing : Executing}
    {effects : List Effect} (asked : ctx.executeAction action = some (executing, effects)) (session : Session)
    (step : UInt64) :
    (∀ effect ∈ effects, plain effect = true) ∧ (∀ bytes, Effect.forceIdle bytes ∉ effects) ∧
      (∀ outcome, Effect.closed outcome ∉ effects) ∧
      ∀ effect ∈ effects, belongs (.executeAction session step action executing) effect = true := by
  cases action <;> cases asked <;> simp [plain, belongs]

/-- Only `Idle` is not executed. -/
private theorem executeAction_asked (ctx : Context) {action : Decision} (continues : action.idleAfter = none) :
    ctx.executeAction action ≠ none := by
  cases action with
  | idle nextAfter => cases continues
  | _ => simp [Context.executeAction]

private theorem answer_plain {ctx : Context} {executing next : Executing} {reply : Reply}
    {childHandles : List AgentRef} {effects : List Effect}
    (answered : ctx.answer executing reply = some (.asks childHandles (next, effects))) (session : Session)
    (step : UInt64) (action : Decision) :
    (∀ effect ∈ effects, plain effect = true) ∧ (∀ bytes, Effect.forceIdle bytes ∉ effects) ∧
      (∀ outcome, Effect.closed outcome ∉ effects) ∧
      (∀ effect ∈ effects, belongs (.executeAction session step action next) effect = true) ∧
      stage next < stage executing := by
  unfold Context.answer at answered
  split at answered <;> try split at answered
  all_goals cases answered
  all_goals simp [plain, belongs, stage]

private theorem answer_other {ctx : Context} {executing : Executing} {reply : Reply} {answer : Answer}
    (answered : ctx.answer executing reply = some answer) : reply ≠ .committed := by
  rintro rfl
  cases executing <;> cases answered

private theorem answer_fails {ctx : Context} {executing : Executing} {reply : Reply}
    (answered : ctx.answer executing reply = some .fails) : reply = .failed := by
  unfold Context.answer at answered
  split at answered <;> try split at answered
  all_goals first
    | rfl
    | cases answered

theorem resume_advances {ctx : Context} {suggested : Bool} {await : Await} {reply : Reply}
    {result : Run × List Effect} (resumed : ctx.resume suggested await reply = some result) :
    Advances ctx (.reply reply suggested) await result := by
  unfold Context.resume at resumed
  split at resumed
  case h_3 session step action =>
    cases resumed
    unfold Context.afterLog
    split
    · exact .stay .commitTick _ ctx.state.childHandles (by simp) rfl
        (.goOn rfl rfl (fun _ => trivial) (by simp [Context.commitTick, Context.schedule, plain])
          (by simp [Context.commitTick, Context.schedule]) (by simp [Context.commitTick, Context.schedule])
          (by simp [Context.commitTick, Context.schedule, belongs]) (by simp only [remaining, stepsLeft]; omega))
    · split
      · rename_i executing effects asked
        obtain ⟨quiet, unforced, unclosed, belonging⟩ := executeAction_plain asked session (saturatingAdd step 1)
        have bounds := stage_bounds executing
        exact .stay (.executeAction session (saturatingAdd step 1) action executing)
          ctx.state.nextWake ctx.state.childHandles (by simp) rfl
          (.goOn rfl rfl (fun (indexed : step = _) => congrArg (saturatingAdd · 1) indexed) quiet
            (fun bytes member => (unforced bytes member).elim) unclosed belonging
            (by simp only [remaining, stepsLeft]; omega))
      · rename_i continues _ unasked
        exact (executeAction_asked ctx continues unasked).elim
  case h_4 session step action executing =>
    obtain ⟨answer, answered, shape⟩ := Option.map_eq_some_iff.mp resumed
    subst shape
    have other := answer_other answered
    cases answer with
    | asks childHandles request =>
      obtain ⟨quiet, unforced, unclosed, belonging, shorter⟩ := answer_plain answered session step action
      exact .stay (.executeAction session step action request.1) ctx.state.nextWake childHandles other rfl
        (.goOn rfl rfl id quiet (fun bytes member => (unforced bytes member).elim) unclosed belonging
          (Nat.add_lt_add_left shorter _))
    | observes childHandles observation =>
      exact afterExecute_advances ctx childHandles session step action executing observation suggested other
    | fails => exact close_advances ctx .failed other rfl rfl (.inl ⟨rfl, answer_fails answered⟩)
  case h_5 =>
    rw [← Option.some.inj resumed]
    cases suggested with
    | false => exact .ended
    | true => exact .handedOver
  case h_6 =>
    cases resumed
    unfold Context.retired
    split
    · exact .stay (.signalParent _) ctx.state.nextWake ctx.state.childHandles (by simp) rfl
        ⟨rfl, rfl, rfl, by simp [inCycle], fun _ => trivial, by simp [plain], by simp, by simp, by simp,
          by simp, by simp [belongs, closing], Nat.lt_succ_self 1⟩
    · exact close_advances ctx _ (by simp) rfl rfl (.inr ⟨_, rfl, .inl rfl⟩)
  case h_13 => cases resumed
  all_goals
    cases resumed
    first
      | exact close_advances ctx _ (by simp) rfl rfl (.inl ⟨rfl, rfl⟩)
      | exact close_advances ctx _ (by simp) rfl rfl (.inr ⟨_, rfl, .inr rfl⟩)
      | exact schedule_advances ctx (by simp) rfl rfl (fun _ => rfl) rfl
          (by simp only [remaining, stepsLeft, Session.new, Session.len, List.length_nil, CYCLE_RUNAWAY_FUSE]; omega)
      | exact schedule_advances ctx (by simp) rfl rfl id rfl (by simp only [remaining]; omega)

theorem step_cases {run next : Run} {event : Event} {effects : List Effect}
    (stepped : workflow.step run event = some (next, effects)) :
    (∃ signal, event = .signal signal ∧ isClosed run.await = false ∧
      next = { run with state := run.state.receive signal } ∧ effects = []) ∨
    (∀ signal, event ≠ .signal signal) ∧ Advances run.toContext event run.await (next, effects) := by
  change run.step event = some (next, effects) at stepped
  unfold Run.step at stepped
  split at stepped
  case h_1 signal =>
    split at stepped
    · cases stepped
    · rename_i open_
      cases stepped
      refine .inl ⟨signal, rfl, ?_, rfl, rfl⟩
      cases seen : run.await <;> first | rfl | exact (open_ _ seen).elim
  case h_2 =>
    split at stepped
    · rename_i gate
      split at stepped
      · rename_i signalled
        rw [gate, ← Option.some.inj stepped]
        exact .inr ⟨by simp, .left (.inl ⟨rfl, signalled⟩)⟩
      · cases stepped
    · cases stepped
  case h_3 =>
    split at stepped
    · rename_i gate
      rw [gate, ← Option.some.inj stepped]
      exact .inr ⟨by simp, .left (.inr ⟨rfl, rfl⟩)⟩
    · cases stepped
  case h_4 => exact .inr ⟨by simp, resume_advances stepped⟩

theorem receive_step {run : Run} (open_ : isClosed run.await = false) (signal : Signal) :
    workflow.step run (.signal signal) = some ({ run with state := run.state.receive signal }, []) := by
  change run.step (.signal signal) = _
  unfold Run.step
  cases waiting : run.await with
  | closed outcome => rw [waiting] at open_; cases open_
  | _ => rfl

theorem waitForTick_quiet (ctx : Context) :
    ∀ effect ∈ ctx.waitForTick.2, ∃ after, effect = .startTimer after := by
  intro effect member
  unfold Context.waitForTick at member
  dsimp only at member
  split at member
  · exact ⟨_, List.mem_singleton.mp member⟩
  · cases member

theorem loopTop_plain (ctx : Context) (resume : Option Session) :
    ∀ effect ∈ (ctx.loopTop resume).2, plain effect = true := by
  intro effect member
  unfold Context.loopTop at member
  split at member
  · cases List.mem_singleton.mp member; rfl
  · obtain ⟨after, rfl⟩ := waitForTick_quiet ctx effect member; rfl
  · split at member <;> cases List.mem_singleton.mp member <;> rfl

theorem loopTop_unforced (ctx : Context) (resume : Option Session) (bytes : Nat) :
    Effect.forceIdle bytes ∉ (ctx.loopTop resume).2 := by
  intro member
  unfold Context.loopTop at member
  split at member
  · cases List.mem_singleton.mp member
  · obtain ⟨after, impossible⟩ := waitForTick_quiet ctx _ member
    cases impossible
  · split at member <;> cases List.mem_singleton.mp member

theorem loopTop_unseeded (ctx : Context) (resume : Option Session) :
    ∀ effect ∈ (ctx.loopTop resume).2, isSeed effect = false := by
  intro effect member
  unfold Context.loopTop at member
  split at member
  · cases List.mem_singleton.mp member; rfl
  · obtain ⟨after, rfl⟩ := waitForTick_quiet ctx effect member; rfl
  · split at member <;> cases List.mem_singleton.mp member <;> rfl

/-- A cycle begins only at the wake gate. -/
theorem step_seeded {run next : Run} {event : Event} {effects : List Effect} {seed : Effect}
    (stepped : workflow.step run event = some (next, effects)) (member : seed ∈ effects) (seeds : isSeed seed = true) :
    (next, effects) = run.leaveGate ∧ atGate run.await = true ∧
      (event = .woken ∧ run.state.signalled = true ∨ event = .timerFired) := by
  have unseeded : isSeed seed ≠ false := by rw [seeds]; exact Bool.noConfusion
  have handed : ∀ (ctx : Context) (input : AgentInput), seed ∉ (ctx.continueAsNew input).2 := by
    intro ctx input later
    rcases List.mem_cons.mp later with rfl | later
    · cases seeds
    · unfold begin at later
      exact unseeded (loopTop_unseeded _ _ seed later)
  obtain ⟨signal, -, -, -, rfl⟩ | ⟨-, advances⟩ := step_cases stepped
  · cases member
  · obtain ⟨result, rfl, rfl, advanced⟩ := advances.result
    generalize from_ : run.await = await at advanced
    cases advanced with
    | left reason => exact ⟨rfl, rfl, reason.imp_right And.left⟩
    | @stayed _ _ _ then_ _ _ childHandles other stays =>
      have belonging := stays.asked seed member
      unfold isSeed at seeds
      split at seeds
      · cases then_ <;> cases belonging
      · cases seeds
    | carried childHandles session other cycle fits => exact (handed _ _ member).elim
    | ended => exact (unseeded (loopTop_unseeded _ _ seed member)).elim
    | handedOver => exact (handed _ _ member).elim

/-- A continued run starts from what it was handed. -/
theorem begin_carried (workflowId : String) {input : AgentInput} {carryover : Carryover}
    (carried : input.carryover = some carryover) :
    ∃ ctx : Context, ctx.state.tick = carryover.tick ∧ ctx.state.retirementRequest = carryover.retirementRequest ∧
      ctx.input = input ∧ begin workflowId input = ctx.loopTop carryover.inFlight := by
  unfold begin
  rw [carried]
  exact ⟨_, rfl, rfl, rfl, rfl⟩

/-- A property of the events, the state and the effects of a workflow's whole life. -/
theorem lifetime_invariant {workflowId : String} {input : AgentInput}
    (holds : List Event → Run → List Effect → Prop)
    (started : holds [] (begin workflowId input).1 (begin workflowId input).2)
    (kept : ∀ events run effects event next more, holds events run effects →
      workflow.step run event = some (next, more) → holds (events ++ [event]) next (effects ++ more))
    {events : List Event} {run : Run} {effects : List Effect}
    (lived : lifetime workflowId input events = some (run, effects)) : holds events run effects := by
  obtain ⟨⟨final, later⟩, ran, shape⟩ := Option.map_eq_some_iff.mp lived
  obtain ⟨rfl, rfl⟩ := Prod.mk.inj shape
  refine workflow.history_invariant
    (fun events run later => holds events run ((begin workflowId input).2 ++ later)) ?_ ?_ ran
  · simpa only [List.append_nil] using started
  · intro events run later event next more holding stepped
    simpa only [List.append_assoc] using kept _ _ _ _ _ _ holding stepped

end Coral.Temporal.Proofs

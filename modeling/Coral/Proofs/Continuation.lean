import Coral.Proofs.WorkflowInvariant
import Coral.Temporal.Oracle

/-! A run cut into continued runs and the uncut run differ in the carryover of their input
alone: the same commands leave both, and both reach the same state. -/

namespace Coral.Temporal.Proofs
open Coral.Library

def rebase (carryover : Option Carryover) (ctx : Context) : Context :=
  { ctx with input := { ctx.input with carryover } }

def rebaseRun (carryover : Option Carryover) (run : Run) : Run := { rebase carryover run.toContext with await := run.await }

def rebased (carryover : Option Carryover) (result : Run × List Effect) : Run × List Effect :=
  (rebaseRun carryover result.1, result.2)

/-- Two results that nothing outside can tell apart. -/
def Alike (result other : Run × List Effect) : Prop :=
  (∃ carryover, other.1 = rebaseRun carryover result.1) ∧
    other.2.filter Effect.observable = result.2.filter Effect.observable

theorem Alike.of_rebased (carryover : Option Carryover) (result : Run × List Effect) :
    Alike result (rebased carryover result) := ⟨⟨carryover, rfl⟩, rfl⟩

theorem loopTop_rebase (carryover : Option Carryover) (ctx : Context) (resume : Option Session) :
    (rebase carryover ctx).loopTop resume = rebased carryover (ctx.loopTop resume) := by
  cases capped : stepCapRetireReason ctx.state.tick ctx.input.mandate.stepCap with
  | some reason => simp only [Context.loopTop, rebase, capped]; rfl
  | none =>
    cases resume with
    | none => simp only [Context.loopTop, rebase, capped]; rfl
    | some session =>
      cases requested : ctx.state.retirementRequest <;>
        simp only [Context.loopTop, rebase, capped, requested] <;> rfl

theorem leaveGate_rebase (carryover : Option Carryover) (ctx : Context) :
    (rebase carryover ctx).leaveGate = rebased carryover ctx.leaveGate := by
  cases requested : ctx.state.retirementRequest <;>
    simp only [Context.leaveGate, drainBuckets, rebase, requested] <;> rfl

theorem leaveGate_alike (carryover : Option Carryover) (ctx : Context) :
    Alike ctx.leaveGate (rebase carryover ctx).leaveGate :=
  leaveGate_rebase carryover ctx ▸ .of_rebased carryover _

theorem executeAction_rebase (carryover : Option Carryover) (ctx : Context) (action : Decision) :
    (rebase carryover ctx).executeAction action = ctx.executeAction action := by
  cases action <;> rfl

theorem retired_rebase (carryover : Option Carryover) (ctx : Context) (reason : String) :
    (rebase carryover ctx).retired reason = rebased carryover (ctx.retired reason) := by
  obtain ⟨workflowId, input, state⟩ := ctx
  cases input with
  | mk cfg fsHandle parentHandle => cases parentHandle <;> rfl

/-- Hydrating what was encoded gives the state back: a continued run starts where the
handing run stood. -/
theorem begin_encoded (ctx : Context) (awake : ctx.state.parked = false)
    (never : ctx.state.isNever = ctx.input.mandate.isNever) (inFlight : Option Session) :
    begin ctx.workflowId { ctx.input with carryover := some { ctx.state.encodeCarryover with inFlight } } =
      (rebase (some { ctx.state.encodeCarryover with inFlight }) ctx).loopTop inFlight := by
  obtain ⟨workflowId, input, state⟩ := ctx
  cases state
  simp only at awake never
  subst awake never
  rfl

/-- A hand-over is not seen outside. -/
theorem Alike.handed {ctx : Context} {carryover other : Option Carryover} {next : AgentInput}
    {result : Run × List Effect} (continued : begin ctx.workflowId next = rebased carryover result) :
    Alike (ctx.continueAsNew next) (rebased other result) := by
  unfold Context.continueAsNew
  rw [continued]
  exact ⟨⟨other, rfl⟩, rfl⟩

/-- What the code between a finished action and the next `await` needs of its context. -/
structure Resumable (ctx : Context) : Prop where
  awake : ctx.state.parked = false
  never : ctx.state.isNever = ctx.input.mandate.isNever
  uncapped : stepCapRetireReason ctx.state.tick ctx.input.mandate.stepCap = none
  unretired : ctx.state.retirementRequest = none

theorem Resumable.within {ctx : Context} (resumable : Resumable ctx) (nextWake : Option Duration)
    (childHandles : List AgentRef) : Resumable (within ctx nextWake childHandles) :=
  ⟨resumable.awake, resumable.never, resumable.uncapped, resumable.unretired⟩

theorem afterExecute_alike {ctx : Context} (resumable : Resumable ctx) (carryover : Option Carryover)
    {session : Session} {step : UInt64} {action : Decision} {observation : Observation} {suggested : Bool}
    (indexed : step = saturatingAdd (.ofNat session.len) 1)
    (unforced : ∀ bytes, Effect.forceIdle bytes ∉ (ctx.afterExecute session step action observation suggested).2) :
    Alike (ctx.afterExecute session step action observation suggested)
      ((rebase carryover ctx).afterExecute session step action observation false) := by
  simp only [Context.afterExecute] at unforced ⊢
  by_cases fused : CYCLE_RUNAWAY_FUSE ≤ (session.push action observation).len
  · simp only [if_pos fused]
    exact .of_rebased carryover _
  · simp only [if_neg fused] at unforced ⊢
    cases suggested with
    | false => exact .of_rebased carryover _
    | true =>
      simp only [if_true] at unforced ⊢
      split at unforced
      · exact (unforced _ List.mem_cons_self).elim
      · rename_i decided
        have follows : step = .ofNat (session.push action observation).len := by
          rw [Session.len_push] at fused ⊢
          rw [indexed]
          exact saturatingAdd_length (Nat.lt_of_not_le fused)
        have resumes : ctx.loopTop (some (session.push action observation)) =
            ctx.decideStep (session.push action observation) step := by
          simp only [Context.loopTop, resumable.uncapped, resumable.unretired, follows]
        have continued := begin_encoded ctx resumable.awake resumable.never (some (session.push action observation))
        rw [loopTop_rebase, resumes] at continued
        exact .handed continued

theorem cycleBoundary_alike {ctx : Context} (awake : ctx.state.parked = false)
    (never : ctx.state.isNever = ctx.input.mandate.isNever) (carryover : Option Carryover) (suggested : Bool) :
    Alike (ctx.cycleBoundary suggested) ((rebase carryover ctx).cycleBoundary false) := by
  change Alike _ ((rebase carryover ctx.bumpTick).loopTop none)
  rw [loopTop_rebase]
  cases suggested with
  | false => exact .of_rebased carryover _
  | true =>
    have continued := begin_encoded ctx.bumpTick awake never none
    rw [loopTop_rebase] at continued
    exact .handed continued

theorem resume_alike {run : Run} (valid : Valid run) (unretired : inCycle run.await = true →
      run.state.retirementRequest = none) (carryover : Option Carryover) {suggested : Bool} {reply : Reply}
    {result : Run × List Effect} (resumed : run.resume suggested run.await reply = some result)
    (unforced : ∀ bytes, Effect.forceIdle bytes ∉ result.2) :
    ∃ other, (rebase carryover run.toContext).resume false run.await reply = some other ∧ Alike result other := by
  have indexed := valid.indexed
  generalize waiting : run.await = await at resumed indexed
  have resumable : inCycle await = true → Resumable run.toContext := fun cycle =>
    ⟨by rw [valid.parked, waiting, awake_of_inCycle cycle], valid.never,
      valid.uncapped (.inl (by rw [waiting]; exact cycle)), unretired (by rw [waiting]; exact cycle)⟩
  unfold Context.resume at resumed
  split at resumed
  case h_3 session step action =>
    cases resumed
    refine ⟨_, rfl, ?_⟩
    unfold Context.afterLog
    rw [executeAction_rebase]
    split
    · exact .of_rebased carryover _
    · split <;> exact .of_rebased carryover _
  case h_4 session step action executing =>
    obtain ⟨answer, answered, shape⟩ := Option.map_eq_some_iff.mp resumed
    subst shape
    refine ⟨_, congrArg (Option.map _) answered, ?_⟩
    cases answer with
    | asks childHandles request => exact .of_rebased carryover _
    | observes childHandles observation =>
      exact afterExecute_alike ((resumable rfl).within run.state.nextWake childHandles) carryover indexed unforced
    | fails => exact .of_rebased carryover _
  case h_5 =>
    cases resumed
    exact ⟨_, rfl, cycleBoundary_alike (resumable rfl).awake valid.never carryover suggested⟩
  case h_6 reason =>
    cases resumed
    exact ⟨_, rfl, by rw [retired_rebase]; exact .of_rebased carryover _⟩
  case h_13 => cases resumed
  all_goals
    cases resumed
    exact ⟨_, rfl, .of_rebased carryover _⟩

/-- The event as a run sees it to which continue-as-new is never suggested. -/
def unsuggested : Event → Event
  | .reply reply _ => .reply reply false
  | event => event

theorem step_alike {run : Run} (valid : Valid run) (unretired : inCycle run.await = true →
      run.state.retirementRequest = none) (carryover : Option Carryover) {event : Event}
    {result : Run × List Effect} (stepped : run.step event = some result)
    (unforced : ∀ bytes, Effect.forceIdle bytes ∉ result.2) :
    ∃ other, (rebaseRun carryover run).step (unsuggested event) = some other ∧ Alike result other := by
  cases event with
  | reply reply suggested => exact resume_alike valid unretired carryover stepped unforced
  | signal signal =>
    obtain ⟨ctx, await⟩ := run
    cases await <;> cases stepped <;> exact ⟨_, rfl, .of_rebased carryover _⟩
  | woken =>
    obtain ⟨ctx, await⟩ := run
    cases await with
    | waitForTick wakeAfter armed =>
      simp only [Run.step] at stepped
      split at stepped
      · rename_i signalled
        rw [← Option.some.inj stepped]
        exact ⟨_, if_pos signalled, leaveGate_alike carryover ctx⟩
      · cases stepped
    | _ => cases stepped
  | timerFired =>
    obtain ⟨ctx, await⟩ := run
    cases await with
    | waitForTick wakeAfter armed =>
      cases armed with
      | false => cases stepped
      | true =>
        rw [← Option.some.inj stepped]
        exact ⟨_, rfl, leaveGate_alike carryover ctx⟩
    | _ => cases stepped

/-- Without `retire` signals a cycle never runs with a retirement requested. -/
def Unretired (run : Run) : Prop := inCycle run.await = true → run.state.retirementRequest = none

theorem loopTop_unretired (ctx : Context) (resume : Option Session) : Unretired (ctx.loopTop resume).1 := by
  unfold Context.loopTop
  split
  · intro cycle; cases cycle
  · intro cycle; cases cycle
  · split
    · intro cycle; cases cycle
    · rename_i unrequested
      exact fun _ => unrequested

theorem leaveGate_unretired (ctx : Context) : Unretired ctx.leaveGate.1 := by
  unfold Context.leaveGate
  dsimp only
  split <;> exact fun _ => rfl

theorem Unretired.step {run next : Run} {event : Event} {effects : List Effect} (unretired : Unretired run)
    (stepped : workflow.step run event = some (next, effects)) (other : ∀ reason, event ≠ .signal (.retire reason)) :
    Unretired next := by
  obtain ⟨signal, rfl, -, rfl, -⟩ | ⟨-, advances⟩ := step_cases stepped
  · cases signal with
    | retire reason => exact (other reason rfl).elim
    | _ => exact unretired
  · obtain ⟨result, rfl, rfl, advanced⟩ := advances.result
    generalize waiting : run.await = await at advanced
    cases advanced with
    | left reason => exact leaveGate_unretired _
    | stayed childHandles other stays => exact fun cycle => unretired (by rw [waiting]; exact stays.cycle cycle)
    | carried childHandles session other cycle fits => exact loopTop_unretired _ _
    | ended => exact loopTop_unretired _ _
    | handedOver => exact loopTop_unretired _ _

/-- The cut run and the uncut one at the same point. -/
structure Matches {World : Type} (cut uncut : Driven World) : Prop where
  world : uncut.world = cut.world
  outstanding : uncut.outstanding = cut.outstanding
  run : ∃ carryover, uncut.run = rebaseRun carryover cut.run
  valid : Valid cut.run
  unretired : Unretired cut.run

variable {World : Type}

private theorem proceed_matches {cut uncut next : Driven World} {effects : List Effect} (same : Matches cut uncut)
    {world : World} {event : Event} (stepped : cut.proceed world event = some (next, effects))
    (unforced : ∀ bytes, Effect.forceIdle bytes ∉ effects) (other : ∀ reason, event ≠ .signal (.retire reason)) :
    ∃ next' effects', uncut.proceed world (unsuggested event) = some (next', effects') ∧ Matches next next' ∧
      effects.filter Effect.observable = effects'.filter Effect.observable := by
  obtain ⟨⟨run, emitted⟩, ran, shape⟩ := Option.map_eq_some_iff.mp stepped
  obtain ⟨rfl, rfl⟩ := Prod.mk.inj shape
  obtain ⟨carryover, rebasing⟩ := same.run
  obtain ⟨⟨run', emitted'⟩, ran', ⟨later, rebased⟩, alike⟩ := step_alike same.valid same.unretired carryover ran unforced
  refine ⟨⟨run', emitted'.filter Effect.observable, world⟩, emitted', ?_,
    ⟨rfl, alike, ⟨later, rebased⟩, same.valid.step ran, same.unretired.step ran other⟩, alike.symm⟩
  unfold Driven.proceed
  rw [rebasing, ran']
  rfl

private theorem answer_matches {cut uncut : Driven World} (same : Matches cut uncut) (oracle : Oracle World) :
    uncut.answer oracle = cut.answer oracle := by
  obtain ⟨carryover, rebasing⟩ := same.run
  unfold Driven.answer
  rw [same.world, same.outstanding, show uncut.run.await = cut.run.await by rw [rebasing]; rfl]

theorem step_matches (oracle : Oracle World) {cut uncut next : Driven World} {move : Move} {effects : List Effect}
    (same : Matches cut uncut) (stepped : oracle.machine.step cut move = some (next, effects))
    (unforced : ∀ bytes, Effect.forceIdle bytes ∉ effects) (other : ∀ reason, move ≠ .signal (.retire reason)) :
    ∃ next' effects', oracle.machine.step uncut move.unsuggested = some (next', effects') ∧ Matches next next' ∧
      effects.filter Effect.observable = effects'.filter Effect.observable := by
  change cut.step oracle move = some (next, effects) at stepped
  change ∃ next' effects', uncut.step oracle move.unsuggested = some (next', effects') ∧ _
  cases move with
  | signal signal =>
    obtain ⟨⟨run, emitted⟩, ran, shape⟩ := Option.map_eq_some_iff.mp stepped
    obtain ⟨rfl, rfl⟩ := Prod.mk.inj shape
    obtain ⟨carryover, rebasing⟩ := same.run
    have received : workflow.step cut.run (.signal signal) = some (run, emitted) := ran
    obtain ⟨⟨run', emitted'⟩, ran', ⟨later, rebased⟩, alike⟩ :=
      step_alike same.valid same.unretired carryover ran unforced
    refine ⟨{ uncut with run := run' }, emitted', ?_, ⟨same.world, same.outstanding, ⟨later, rebased⟩,
      same.valid.step received, same.unretired.step received fun reason asked =>
        other reason (congrArg Move.signal (Event.signal.inj asked))⟩, alike.symm⟩
    unfold Driven.step Move.unsuggested
    dsimp only
    rw [rebasing, show Run.step _ (.signal signal) = _ from ran']
    rfl
  | woken =>
    unfold Driven.step Move.unsuggested at *
    dsimp only at *
    rw [same.world]
    exact proceed_matches same stepped unforced (by simp)
  | timerFired =>
    unfold Driven.step Move.unsuggested at *
    dsimp only at *
    rw [same.world]
    exact proceed_matches same stepped unforced (by simp)
  | reply suggested =>
    unfold Driven.step Move.unsuggested at *
    dsimp only at *
    rw [answer_matches same]
    exact proceed_matches same stepped unforced (by simp)

/-- Whatever inner steps a cycle is handed over at, the continued runs together do what one
uncut run does, and leave the workflow and the world as it does. -/
theorem continuation_transparent (oracle : Oracle World) (world : World) (workflowId : String) (input : AgentInput)
    (moves : List Move) (final : Driven World) (effects : List Effect)
    (unretired : ∀ reason, Move.signal (.retire reason) ∉ moves)
    (ran : oracle.machine.run (.start workflowId input world) moves = some (final, effects))
    (fits : ∀ bytes, Effect.forceIdle bytes ∉ effects) :
    ∃ final' effects',
      oracle.machine.run (.start workflowId input world) (moves.map Move.unsuggested) = some (final', effects') ∧
      effects'.filter Effect.observable = effects.filter Effect.observable ∧
      final'.run.state = final.run.state ∧ final'.run.await = final.run.await ∧ final'.world = final.world := by
  have start : Matches (.start workflowId input world) (.start workflowId input world) :=
    ⟨rfl, rfl, ⟨(begin workflowId input).1.input.carryover, rfl⟩, begin_valid workflowId input,
      loopTop_unretired _ _⟩
  obtain ⟨final', effects', ran', ended, same⟩ := oracle.machine.simulation oracle.machine Move.unsuggested
    (Option.guard Effect.observable) (Option.guard Effect.observable) Matches
    (fun cut move => (∀ reason, move ≠ .signal (.retire reason)) ∧ ∀ next more,
      oracle.machine.step cut move = some (next, more) → ∀ effect ∈ more, ∀ bytes, effect ≠ .forceIdle bytes)
    (fun cut uncut move next more same permitted stepped => by
      simpa only [List.filterMap_eq_filter] using step_matches oracle same stepped
        (fun bytes member => permitted.2 next more stepped _ member bytes rfl) permitted.1)
    start
    (oracle.machine.along_of_run ran (fun move member reason asked => unretired reason (asked ▸ member))
      fun effect member bytes forced => fits bytes (forced ▸ member))
    ran
  obtain ⟨carryover, rebasing⟩ := ended.run
  exact ⟨final', effects', ran', by simpa only [List.filterMap_eq_filter] using same.symm, by rw [rebasing]; rfl, by rw [rebasing]; rfl, ended.world⟩

/-- One read, then idle. Only the requests decide the replies. -/
def readOnce : Oracle Nat where
  decide session := if session.steps.isEmpty then .read "notes/a.md" else .idle ⟨0⟩
  perform world requests := (world + 1, match requests with
    | .drained _ :: _ => .seedBuilt ⟨.new "" ⟨0⟩ none, [], {}⟩
    | [.activity (.appendDecisionLog _ _ _ _)] => .logged
    | [.activity (.readFs _ _)] => .fsRead (.success "text")
    | _ => .committed)

/-- Handed over after the read, with a human op queued, and again at the cycle boundary. -/
theorem continuation_transparent_read_once :
    let moves : List Move := [.timerFired, .reply false, .reply false, .reply false,
      .signal (.humanOverride ⟨.null⟩), .reply true, .reply false, .reply false, .reply true]
    let start : Driven Nat := .start "w" (.newForTest ⟨⟨0⟩⟩ ⟨⟨1⟩⟩ "root") 0
    ∃ final effects final' effects', readOnce.machine.run start moves = some (final, effects) ∧
      readOnce.machine.run start (moves.map Move.unsuggested) = some (final', effects') ∧
      effects'.filter Effect.observable = effects.filter Effect.observable ∧
      final'.run.state = final.run.state ∧ final'.run.await = final.run.await ∧ final'.world = final.world := by
  intro moves start
  have fits : (readOnce.machine.run start moves).any (fun result => result.2.all fun
      | .forceIdle _ => false
      | _ => true) = true := by decide +kernel
  obtain ⟨⟨final, effects⟩, ran, unforced⟩ := (Option.any_eq_true _ _).mp fits
  obtain ⟨final', effects', same⟩ := continuation_transparent readOnce 0 "w" _ moves final effects (by simp [moves])
    ran fun bytes member => by cases List.all_eq_true.mp unforced _ member
  exact ⟨final, effects, final', effects', ran, same⟩

end Coral.Temporal.Proofs

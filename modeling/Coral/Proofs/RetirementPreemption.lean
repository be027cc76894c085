import Coral.Proofs.WorkflowInvariant

/-! From the first `retire` signal on. The request waits in the state, and goes along with a
continue-as-new, until the wake gate or a resumed run takes it; nothing new begins meanwhile. -/

namespace Coral.Temporal.Proofs
open Coral.Library

/-- The reason given last, from one that was given before the events. -/
def latestReason (reason : String) (events : List Event) : String := events.foldl (fun latest event => match event with
  | .signal (.retire newer) => newer
  | _ => latest) reason

/-- What the workflow does itself. -/
def own : Event → Bool
  | .signal _ => false
  | _ => true

/-- The end of a cycle, or its hand-over. -/
def endsWork : Effect → Bool
  | .activity (.commitTick _ _) | .continueAsNew _ => true
  | _ => false

/-- The reason that is persisted. -/
def retirement : Effect → Option String
  | .activity (.persistRetirement _ reason) => some reason
  | _ => none

/-- A request that is taken has been given, unless the step cap came first. -/
def Reason (latest : String) (stepCap : Option UInt64) (why : String) : Prop :=
  why = latest ∨ ∃ tick, stepCapRetireReason tick stepCap = some why

/-- Where a workflow is, once it has been asked to retire. -/
inductive Leaving (latest : String) (events : List Event) (run : Run) (seen done : List Effect) : Prop where
  | pending (request : run.state.retirementRequest = some latest)
      (waits : inCycle run.await = true ∨ atGate run.await = true) (untaken : ∀ effect ∈ seen, retirement effect = none)
      (resting : (∃ mark ∈ done, endsWork mark = true) → run.await = .commitTick ∨ atGate run.await = true)
  | taken (why : String) (waits : run.await = .persistRetirement why ∨ run.await = .signalParent why)
      (kept : ∃ mark ∈ seen, retirement mark = some why)
  | finished (outcome : Outcome) (closed : run.await = .closed outcome)
      (returned : (outcome = .failed ∧ ∃ suggested, .reply .failed suggested ∈ events) ∨
        ∃ mark ∈ seen, ∃ why, retirement mark = some why ∧ outcome = .completed (.retired why))

/-- Once the retirement is asked to be persisted, nothing else is left to do. -/
def Last (effects : List Effect) : Prop :=
  ∀ before mark why after, effects = before ++ mark :: after → retirement mark = some why →
    ∀ later ∈ after, closing later = true

/-- What the workflow does in a step. -/
structure Preempts (latest : String) (stepCap : Option UInt64) (seen done new : List Effect) : Prop where
  unseeded : ∀ effect ∈ new, isSeed effect = false
  /-- Only the rest of the cycle in progress still executes. -/
  rest : (∃ mark ∈ done, endsWork mark = true) → ∀ later ∈ new, isWork later = false
  carried : ∀ next, .continueAsNew next ∈ new → next.carryover.bind (·.retirementRequest) = some latest
  taken : ∀ mark ∈ new, ∀ why, retirement mark = some why → Reason latest stepCap why
  last : Last (seen ++ new)

theorem working_remaining {await : Await} (cycle : inCycle await = true) : 4 ≤ remaining await := by
  cases await with
  | executeAction session step action executing =>
    simp only [remaining]
    omega
  | commitTick => exact Nat.le_refl 4
  | buildSeed => simp [remaining, CYCLE_RUNAWAY_FUSE]
  | decideStep session step =>
    simp only [remaining]
    omega
  | logDecision session step action =>
    simp only [remaining, stepsLeft]
    omega
  | _ => cases cycle

theorem closing_effect {effect : Effect} (closes : closing effect = true) :
    isSeed effect = false ∧ isWork effect = false ∧ retirement effect = none ∧ ∀ next, effect ≠ .continueAsNew next := by
  unfold closing at closes
  split at closes
  · exact ⟨rfl, rfl, rfl, fun _ => nofun⟩
  · exact ⟨rfl, rfl, rfl, fun _ => nofun⟩
  · cases closes

/-- The only retirement of a workflow, as its last effect. -/
theorem last_retirement {seen front : List Effect} {last : Effect} (untaken : ∀ effect ∈ seen ++ front, retirement effect = none)
    (before : List Effect) (mark : Effect) (why : String) (after : List Effect)
    (split : seen ++ (front ++ [last]) = before ++ mark :: after) (retires : retirement mark = some why) : after = [] := by
  rcases List.eq_nil_or_concat after with rfl | ⟨others, final, rfl⟩
  · rfl
  · have same : (seen ++ front) ++ [last] = (before ++ mark :: others) ++ [final] := by simpa using split
    have inside : mark ∈ seen ++ front := by
      rw [(List.append_inj' same rfl).1]
      simp
    rw [untaken mark inside] at retires
    cases retires

theorem last_untaken {effects : List Effect} (untaken : ∀ effect ∈ effects, retirement effect = none) : Last effects := by
  intro before mark why after split retires
  rw [untaken mark (split ▸ by simp)] at retires
  cases retires

theorem Last.append {seen new : List Effect} (last : Last seen) (closes : ∀ effect ∈ new, closing effect = true) :
    Last (seen ++ new) := by
  intro before mark why after split retires
  rcases List.append_eq_append_iff.mp split with ⟨front, rfl, rest⟩ | ⟨front, rfl, rest⟩
  · have plain := (closing_effect (closes mark (rest ▸ by simp))).2.2.1
    rw [plain] at retires
    cases retires
  · cases front with
    | nil =>
      have plain := (closing_effect (closes mark (by rw [← List.nil_append new, ← rest]; simp))).2.2.1
      rw [plain] at retires
      cases retires
    | cons first front =>
      obtain ⟨rfl, rfl⟩ := List.cons.inj rest
      intro later member
      rcases List.mem_append.mp member with earlier | new
      · exact last before mark why front rfl retires later earlier
      · exact closes later new

/-- The top of the loop with a request pending: it waits for the gate, or retires. -/
inductive Enters (latest : String) (stepCap : Option UInt64) (result : Run × List Effect) : Prop where
  | waits (request : result.1.state.retirementRequest = some latest) (gate : atGate result.1.await = true)
      (timers : ∀ effect ∈ result.2, ∃ after, effect = .startTimer after)
  | retires (fsHandle : FsHandle) (why : String) (reason : Reason latest stepCap why)
      (waits : result.1.await = .persistRetirement why)
      (asks : result.2 = [.activity (.persistRetirement fsHandle why)])

theorem loopTop_enters {ctx : Context} {latest : String} (request : ctx.state.retirementRequest = some latest)
    (resume : Option Session) : Enters latest ctx.input.mandate.stepCap (ctx.loopTop resume) := by
  unfold Context.loopTop
  split
  · rename_i reason capped
    exact .retires _ reason (.inr ⟨_, capped⟩) rfl rfl
  · exact .waits request rfl (waitForTick_quiet ctx)
  · split
    · rename_i reason asked
      rw [request] at asked
      cases asked
      exact .retires _ latest (.inl rfl) rfl rfl
    · rename_i unasked
      rw [request] at unasked
      cases unasked

theorem Enters.shorter {latest : String} {stepCap : Option UInt64} {result : Run × List Effect}
    (enters : Enters latest stepCap result) : remaining result.1.await ≤ 3 := by
  cases enters with
  | waits request gate timers =>
    cases waits : result.1.await with
    | waitForTick wakeAfter armed => exact Nat.le_refl 3
    | _ =>
      rw [waits] at gate
      cases gate
  | retires fsHandle why reason waits asks =>
    rw [waits]
    exact Nat.le_succ 2

/-- A step of a cycle stays in it, or fails. -/
theorem Stays.goesOn {reply : Reply} {await next : Await} {nextWake : Option Duration} {new : List Effect}
    (stays : Stays reply await next nextWake new) (cycle : inCycle await = true) :
    inCycle next = true ∨ ∃ outcome, next = .closed outcome := by
  have unretiring : ∀ why, await ≠ .persistRetirement why := by
    rintro why rfl
    cases cycle
  cases waits : next with
  | waitForTick wakeAfter armed =>
    have asleep := stays.asleep
    rw [waits] at asleep
    cases asleep
  | persistRetirement why => exact (unretiring why (stays.leaving why (.inl waits))).elim
  | signalParent why => exact (unretiring why (stays.leaving why (.inr waits))).elim
  | closed outcome => exact .inr ⟨outcome, rfl⟩
  | _ => exact .inl rfl

theorem Stays.plainly {reply : Reply} {await next : Await} {nextWake : Option Duration} {new : List Effect}
    (stays : Stays reply await next nextWake new) : ∀ effect ∈ new, isSeed effect = false ∧ retirement effect = none ∧
      (∀ input, effect ≠ .continueAsNew input) ∧ (endsWork effect = true → next = .commitTick) := by
  intro effect member
  have belonging := stays.asked effect member
  have quiet := stays.quiet effect member
  cases effect with
  | activity activity =>
    cases activity <;> cases next <;> first
      | exact ⟨rfl, rfl, fun _ => nofun, fun _ => rfl⟩
      | (cases belonging; done)
      | exact ⟨rfl, rfl, fun _ => nofun, nofun⟩
  | continueAsNew input => cases quiet
  | _ => exact ⟨rfl, rfl, fun _ => nofun, nofun⟩

section Steps

variable {latest : String} {events : List Event} {run : Run} {seen done front : List Effect}

/-- At the top of the loop, after effects that only lead there. -/
theorem Enters.leaving {stepCap : Option UInt64} {result : Run × List Effect} (enters : Enters latest stepCap result)
    (untaken : ∀ effect ∈ seen, retirement effect = none)
    (leads : ∀ effect ∈ front, isWork effect = false ∧ isSeed effect = false ∧ retirement effect = none)
    (carried : ∀ next, .continueAsNew next ∈ front → next.carryover.bind (·.retirementRequest) = some latest) :
    Leaving latest events result.1 (seen ++ (front ++ result.2)) (done ++ (front ++ result.2)) ∧
      Preempts latest stepCap seen done (front ++ result.2) := by
  have clear : ∀ effect ∈ seen ++ front, retirement effect = none := by
    intro effect member
    rcases List.mem_append.mp member with earlier | leading
    · exact untaken effect earlier
    · exact (leads effect leading).2.2
  cases enters with
  | waits request gate timers =>
    have quiet : ∀ effect ∈ front ++ result.2, isWork effect = false ∧ isSeed effect = false ∧ retirement effect = none := by
      intro effect member
      rcases List.mem_append.mp member with leading | timer
      · exact leads effect leading
      · obtain ⟨after, rfl⟩ := timers effect timer
        exact ⟨rfl, rfl, rfl⟩
    have still : ∀ effect ∈ seen ++ (front ++ result.2), retirement effect = none := by
      intro effect member
      rcases List.mem_append.mp member with earlier | new
      · exact untaken effect earlier
      · exact (quiet effect new).2.2
    refine ⟨.pending request (.inr gate) still fun _ => .inr gate, ?_, ?_, ?_, ?_, last_untaken still⟩
    · exact fun effect member => (quiet effect member).2.1
    · exact fun _ effect member => (quiet effect member).1
    · intro next member
      rcases List.mem_append.mp member with leading | timer
      · exact carried next leading
      · obtain ⟨after, impossible⟩ := timers _ timer
        cases impossible
    · intro mark member why retires
      rw [(quiet mark member).2.2] at retires
      cases retires
  | retires fsHandle why reason waits asks =>
    rw [asks]
    refine ⟨.taken why (.inl waits) ⟨.activity (.persistRetirement fsHandle why), by simp, rfl⟩, ?_, ?_, ?_, ?_, ?_⟩
    · intro effect member
      rcases List.mem_append.mp member with leading | last
      · exact (leads effect leading).2.1
      · cases List.mem_singleton.mp last
        rfl
    · intro _ effect member
      rcases List.mem_append.mp member with leading | last
      · exact (leads effect leading).1
      · cases List.mem_singleton.mp last
        rfl
    · intro next member
      rcases List.mem_append.mp member with leading | last
      · exact carried next leading
      · cases List.mem_singleton.mp last
    · intro mark member other retires
      rcases List.mem_append.mp member with leading | last
      · rw [(leads mark leading).2.2] at retires
        cases retires
      · cases List.mem_singleton.mp last
        cases retires
        exact reason
    · intro before mark other after split retires later member
      rw [last_retirement clear before mark other after split retires] at member
      cases member

/-- The request goes along with a continue-as-new. -/
theorem continueAsNew_leaving {ctx : Context} {input : AgentInput} {carryover : Carryover}
    (carried : input.carryover = some carryover) (request : carryover.retirementRequest = some latest)
    (untaken : ∀ effect ∈ seen, retirement effect = none) :
    Leaving latest events (ctx.continueAsNew input).1 (seen ++ (ctx.continueAsNew input).2)
        (done ++ (ctx.continueAsNew input).2) ∧
      Preempts latest input.mandate.stepCap seen done (ctx.continueAsNew input).2 ∧
      remaining (ctx.continueAsNew input).1.await ≤ 3 := by
  obtain ⟨start, -, asked, rfl, begun⟩ := begin_carried ctx.workflowId carried
  have enters := loopTop_enters (asked.trans request) carryover.inFlight
  rw [← begun] at enters
  have handed : ∀ next, Effect.continueAsNew next ∈ [Effect.continueAsNew start.input] →
      next.carryover.bind (·.retirementRequest) = some latest := by
    intro next member
    cases List.mem_singleton.mp member
    rw [carried]
    exact request
  obtain ⟨leaving, preempts⟩ := @Enters.leaving latest events seen done [.continueAsNew start.input] _ _ enters untaken
    (by simp [isWork, isSeed, retirement]) handed
  exact ⟨leaving, preempts, enters.shorter⟩

/-- A cycle that goes on, or closes the workflow with an error. -/
theorem Stays.preempted {reply : Reply} {suggested : Bool} {next : Await} {nextWake : Option Duration} {new : List Effect}
    {childHandles : List AgentRef} (stays : Stays reply run.await next nextWake new) (asked : .reply reply suggested ∈ events)
    (request : run.state.retirementRequest = some latest) (cycle : inCycle run.await = true)
    (untaken : ∀ effect ∈ seen, retirement effect = none)
    (resting : (∃ mark ∈ done, endsWork mark = true) → run.await = .commitTick) :
    Leaving latest events ((within run.toContext nextWake childHandles).awaiting next) (seen ++ new) (done ++ new) ∧
      Preempts latest run.input.mandate.stepCap seen done new := by
  have goesOn := stays.goesOn cycle
  have plainly := stays.plainly
  have still : ∀ effect ∈ seen ++ new, retirement effect = none := by
    intro effect member
    rcases List.mem_append.mp member with earlier | later
    · exact untaken effect earlier
    · exact (plainly effect later).2.1
  have rested : (∃ mark ∈ done, endsWork mark = true) → ∃ outcome, next = .closed outcome := by
    intro ended
    have shorter := stays.shorter
    rw [resting ended] at shorter
    rcases goesOn with working | closed
    · have long := working_remaining working
      change remaining next < 4 at shorter
      omega
    · exact closed
  refine ⟨?_, ?_, ?_, ?_, ?_, last_untaken still⟩
  · rcases goesOn with working | ⟨outcome, closed⟩
    · refine .pending request (.inl working) still ?_
      rintro ⟨mark, member, ends⟩
      rcases List.mem_append.mp member with earlier | later
      · obtain ⟨outcome, closed⟩ := rested ⟨mark, earlier, ends⟩
        subst closed
        cases working
      · exact .inl ((plainly mark later).2.2.2 ends)
    · refine .finished outcome closed ?_
      rcases stays.ends outcome (stays.closes outcome closed) with ⟨failed, rfl⟩ | ⟨why, -, waits | waits⟩
      · exact .inl ⟨failed, suggested, asked⟩
      all_goals
        rw [waits] at cycle
        cases cycle
  · exact fun effect member => (plainly effect member).1
  · intro ended effect member
    obtain ⟨outcome, closed⟩ := rested ended
    have belonging := stays.asked effect member
    rw [closed] at belonging
    refine (closing_effect (?_ : closing effect = true)).2.1
    cases effect with
    | activity activity => cases activity <;> cases belonging
    | _ => exact belonging
  · exact fun input member => ((plainly _ member).2.2.1 input rfl).elim
  · intro mark member why retires
    rw [(plainly mark member).2.1] at retires
    cases retires

/-- The retirement goes on: the parent is told, and the workflow returns. -/
theorem Stays.retiring {reply : Reply} {suggested : Bool} {next : Await} {nextWake : Option Duration} {new : List Effect}
    {childHandles : List AgentRef} {why : String} (stays : Stays reply run.await next nextWake new)
    (asked : .reply reply suggested ∈ events) (waits : run.await = .persistRetirement why ∨ run.await = .signalParent why)
    (kept : ∃ mark ∈ seen, retirement mark = some why) (last : Last seen) :
    Leaving latest events ((within run.toContext nextWake childHandles).awaiting next) (seen ++ new) (done ++ new) ∧
      Preempts latest run.input.mandate.stepCap seen done new := by
  have outside : inCycle run.await = false := by rcases waits with waits | waits <;> rw [waits] <;> rfl
  have arrives : next = .signalParent why ∨ ∃ outcome, next = .closed outcome := by
    have shorter := stays.shorter
    cases arrival : next with
    | waitForTick wakeAfter armed =>
      have asleep := stays.asleep
      rw [arrival] at asleep
      cases asleep
    | persistRetirement reason =>
      rw [arrival, stays.leaving reason (.inl arrival)] at shorter
      exact (Nat.lt_irrefl _ shorter).elim
    | signalParent reason =>
      have leaves := stays.leaving reason (.inr arrival)
      rcases waits with waits | waits <;> rw [waits] at leaves <;> cases leaves
      exact .inl rfl
    | closed outcome => exact .inr ⟨outcome, rfl⟩
    | _ =>
      have cycle := stays.cycle (arrival ▸ rfl)
      rw [outside] at cycle
      cases cycle
  have closes : ∀ effect ∈ new, closing effect = true := by
    intro effect member
    have belonging := stays.asked effect member
    rcases arrives with rfl | ⟨outcome, rfl⟩
    all_goals
      cases effect with
      | activity activity => cases activity <;> cases belonging
      | _ => exact belonging
  have still : ∃ mark ∈ seen ++ new, retirement mark = some why := by
    obtain ⟨mark, member, retires⟩ := kept
    exact ⟨mark, List.mem_append_left _ member, retires⟩
  refine ⟨?_, ?_, ?_, ?_, ?_, last.append closes⟩
  · rcases arrives with rfl | ⟨outcome, rfl⟩
    · exact .taken why (.inr rfl) still
    · refine .finished outcome rfl ?_
      rcases stays.ends outcome (stays.closes outcome rfl) with ⟨failed, rfl⟩ | ⟨reason, returned, leaves⟩
      · exact .inl ⟨failed, suggested, asked⟩
      · obtain ⟨mark, member, retires⟩ := still
        refine .inr ⟨mark, member, why, retires, returned.trans ?_⟩
        rcases waits with waits | waits <;> rw [waits] at leaves <;> rcases leaves with leaves | leaves <;> cases leaves <;> rfl
  · exact fun effect member => (closing_effect (closes effect member)).1
  · exact fun _ effect member => (closing_effect (closes effect member)).2.1
  · exact fun input member => ((closing_effect (closes _ member)).2.2.2 input rfl).elim
  · intro mark member reason retires
    rw [(closing_effect (closes mark member)).2.2.1] at retires
    cases retires

theorem latestReason_own {event : Event} (other : ∀ signal, event ≠ .signal signal) : latestReason latest [event] = latest := by
  cases event with
  | signal signal => exact (other signal rfl).elim
  | _ => rfl

theorem own_other {event : Event} (other : ∀ signal, event ≠ .signal signal) : own event = true := by
  cases event with
  | signal signal => exact (other signal rfl).elim
  | _ => rfl

theorem Leaving.step {next : Run} {event : Event} {new : List Effect} (leaving : Leaving latest events run seen done)
    (last : Last seen) (stepped : workflow.step run event = some (next, new)) :
    Leaving (latestReason latest [event]) (events ++ [event]) next (seen ++ new) (done ++ new) ∧
      Preempts latest run.input.mandate.stepCap seen done new ∧
      (if own event then 1 else 0) + remaining next.await ≤ remaining run.await := by
  obtain ⟨signal, rfl, open_, rfl, rfl⟩ | ⟨other, advances⟩ := step_cases stepped
  · rw [List.append_nil, List.append_nil]
    refine ⟨?_, ⟨by simp, by simp, by simp, by simp, by rwa [List.append_nil]⟩, by simp [own]⟩
    cases leaving with
    | pending request waits untaken resting =>
      refine .pending ?_ waits untaken resting
      cases signal <;> first | exact request | rfl
    | taken why waits kept => exact .taken why waits kept
    | finished outcome closed returned =>
      rw [closed] at open_
      cases open_
  · obtain ⟨result, rfl, rfl, advanced⟩ := advances.result
    rw [latestReason_own other, own_other other]
    generalize from_ : run.await = await at advanced
    cases leaving with
    | finished outcome closed returned =>
      rw [closed] at from_
      subst from_
      cases advanced with
      | stayed childHandles other stays => cases stays.open_
      | carried childHandles session other cycle fits => cases cycle
    | taken why waits kept =>
      cases advanced with
      | left reason => rcases waits with waits | waits <;> rw [waits] at from_ <;> cases from_
      | @stayed reply suggested _ next nextWake new childHandles uncommitted stays =>
        subst from_
        obtain ⟨leaving, preempts⟩ := stays.retiring (List.mem_append_right events (List.mem_singleton_self _)) waits kept last
        refine ⟨leaving, preempts, ?_⟩
        have shorter := stays.shorter
        change 1 + remaining next ≤ _
        omega
      | carried childHandles session other cycle fits =>
        rcases waits with waits | waits <;> rw [waits] at from_ <;> subst from_ <;> cases cycle
      | ended => rcases waits with waits | waits <;> rw [waits] at from_ <;> cases from_
      | handedOver => rcases waits with waits | waits <;> rw [waits] at from_ <;> cases from_
    | pending request waits untaken resting =>
      cases advanced with
      | left reason =>
        let drained := drainBuckets { run.state with parked := false }
        let ctx : Context := { run.toContext with state := drained.2 }
        have retires : run.leaveGate = emit (.drained drained.1) (ctx.retire latest) := by
          unfold Context.leaveGate
          simp only [ctx, drained, drainBuckets, request]
        have enters : Enters latest run.input.mandate.stepCap (ctx.retire latest) := .retires _ latest (.inl rfl) rfl rfl
        obtain ⟨leaving, preempts⟩ := @Enters.leaving latest (events ++ [event]) seen done [.drained drained.1] _ _ enters
          untaken (by simp [isWork, isSeed, retirement]) (by simp)
        rw [retires]
        exact ⟨leaving, preempts, Nat.le_refl 3⟩
      | @stayed reply suggested _ next nextWake new childHandles uncommitted stays =>
        subst from_
        have cycle : inCycle run.await = true := by
          refine waits.resolve_right fun gate => ?_
          rw [stays.awake] at gate
          cases gate
        obtain ⟨leaving, preempts⟩ := stays.preempted (List.mem_append_right events (List.mem_singleton_self _)) request
          cycle untaken fun ended => (resting ended).resolve_right fun gate => by
            rw [stays.awake] at gate
            cases gate
        refine ⟨leaving, preempts, ?_⟩
        have shorter := stays.shorter
        change 1 + remaining next ≤ _
        omega
      | carried childHandles session other cycle fits =>
        obtain ⟨leaving, preempts, short⟩ := @continueAsNew_leaving latest (events ++ [_]) seen done
          (within run.toContext run.state.nextWake childHandles)
          (midCycleInput run.input (within run.toContext run.state.nextWake childHandles).state.encodeCarryover session) _
          rfl request untaken
        have long := working_remaining cycle
        refine ⟨leaving, preempts, ?_⟩
        simp only [if_true]
        omega
      | ended =>
        obtain ⟨leaving, preempts⟩ := @Enters.leaving latest (events ++ [_]) seen done [] _ _
          (@loopTop_enters run.bumpTick latest request none) untaken (by simp) (by simp)
        have short := (@loopTop_enters run.bumpTick latest request none).shorter
        exact ⟨leaving, preempts, Nat.add_le_add_left short 1⟩
      | handedOver =>
        obtain ⟨leaving, preempts, short⟩ := @continueAsNew_leaving latest (events ++ [_]) seen done run.bumpTick
          { run.input with carryover := some run.bumpTick.state.encodeCarryover } _ rfl request untaken
        exact ⟨leaving, preempts, Nat.add_le_add_left short 1⟩

/-- Whether a workflow has taken a retirement, whatever led to it. -/
inductive Taking (run : Run) (seen : List Effect) : Prop where
  | untaken (waits : inCycle run.await = true ∨ atGate run.await = true) (none : ∀ effect ∈ seen, retirement effect = none)
  | taken (why : String) (waits : run.await = .persistRetirement why ∨ run.await = .signalParent why)
      (kept : ∃ mark ∈ seen, retirement mark = some why)
  | finished (closed : isClosed run.await = true)

theorem Leaving.taking (leaving : Leaving latest events run seen done) : Taking run seen := by
  cases leaving with
  | pending request waits untaken resting => exact .untaken waits untaken
  | taken why waits kept => exact .taken why waits kept
  | finished outcome closed returned => exact .finished (by rw [closed]; rfl)

theorem still_untaken {next : Run} {new : List Effect} (none : ∀ effect ∈ seen, retirement effect = none)
    (waits : inCycle next.await = true ∨ atGate next.await = true) (quiet : ∀ effect ∈ new, retirement effect = Option.none) :
    Taking next (seen ++ new) ∧ Last (seen ++ new) := by
  have still : ∀ effect ∈ seen ++ new, retirement effect = Option.none := by
    intro effect member
    rcases List.mem_append.mp member with earlier | later
    · exact none effect earlier
    · exact quiet effect later
  exact ⟨.untaken waits still, last_untaken still⟩

theorem retire_taking (ctx : Context) (why : String) (none : ∀ effect ∈ seen, retirement effect = none) :
    Taking (ctx.retire why).1 (seen ++ (ctx.retire why).2) ∧ Last (seen ++ (ctx.retire why).2) := by
  refine ⟨.taken why (.inl rfl) ⟨_, List.mem_append_right seen (List.mem_singleton_self _), rfl⟩, ?_⟩
  intro before mark other after split taken later member
  have ended := @last_retirement seen [] (.activity (.persistRetirement ctx.input.fsHandle why)) (by simpa using none)
    before mark other after split taken
  rw [ended] at member
  cases member

theorem loopTop_taking {ctx : Context} {resume : Option Session} (none : ∀ effect ∈ seen, retirement effect = none) :
    Taking (ctx.loopTop resume).1 (seen ++ (ctx.loopTop resume).2) ∧ Last (seen ++ (ctx.loopTop resume).2) := by
  unfold Context.loopTop
  split
  · exact retire_taking _ _ none
  · refine still_untaken none (.inr rfl) fun effect member => ?_
    obtain ⟨after, rfl⟩ := waitForTick_quiet ctx effect member
    rfl
  · split
    · exact retire_taking _ _ none
    · exact still_untaken none (.inl rfl) (by simp [Context.decideStep, Context.schedule, retirement])

theorem leaveGate_taking {ctx : Context} (none : ∀ effect ∈ seen, retirement effect = none) :
    Taking ctx.leaveGate.1 (seen ++ ctx.leaveGate.2) ∧ Last (seen ++ ctx.leaveGate.2) := by
  unfold Context.leaveGate
  dsimp only
  split
  · rename_i why asked
    have drained : ∀ effect ∈ seen ++ [.drained (drainBuckets { ctx.state with parked := false }).1],
        retirement effect = Option.none := by
      intro effect member
      rcases List.mem_append.mp member with earlier | mark
      · exact none effect earlier
      · cases List.mem_singleton.mp mark
        rfl
    have retires := retire_taking { ctx with state := (drainBuckets { ctx.state with parked := false }).2 } why drained
    rwa [List.append_assoc] at retires
  · exact still_untaken none (.inl rfl) (by simp [emit, Context.schedule, retirement])

theorem begin_taking (workflowId : String) (input : AgentInput) (none : ∀ effect ∈ seen, retirement effect = none) :
    Taking (begin workflowId input).1 (seen ++ (begin workflowId input).2) ∧ Last (seen ++ (begin workflowId input).2) := by
  unfold begin
  exact loopTop_taking none

theorem Taking.step {next : Run} {event : Event} {new : List Effect} (taking : Taking run seen) (last : Last seen)
    (stepped : workflow.step run event = some (next, new)) : Taking next (seen ++ new) ∧ Last (seen ++ new) := by
  obtain ⟨signal, rfl, open_, rfl, rfl⟩ | ⟨other, advances⟩ := step_cases stepped
  · rw [List.append_nil]
    refine ⟨?_, last⟩
    cases taking with
    | untaken waits none => exact .untaken waits none
    | taken why waits kept => exact .taken why waits kept
    | finished closed =>
      rw [closed] at open_
      cases open_
  · obtain ⟨result, rfl, rfl, advanced⟩ := advances.result
    generalize from_ : run.await = await at advanced
    have handed : ∀ (ctx : Context) (input : AgentInput), (∀ effect ∈ seen, retirement effect = none) →
        Taking (ctx.continueAsNew input).1 (seen ++ (ctx.continueAsNew input).2) ∧
          Last (seen ++ (ctx.continueAsNew input).2) := by
      intro ctx input none
      have taking := @begin_taking (seen ++ [.continueAsNew input]) ctx.workflowId input (by
        intro effect member
        rcases List.mem_append.mp member with earlier | leading
        · exact none effect earlier
        · cases List.mem_singleton.mp leading
          rfl)
      rwa [List.append_assoc] at taking
    cases taking with
    | finished closed =>
      rw [from_] at closed
      cases advanced with
      | stayed childHandles other stays =>
        rw [stays.open_] at closed
        cases closed
      | carried childHandles session other cycle fits =>
        cases await <;> first
          | (cases closed; done)
          | cases cycle
      | _ => cases closed
    | taken why waits kept =>
      cases advanced with
      | left reason => rcases waits with waits | waits <;> rw [waits] at from_ <;> cases from_
      | @stayed reply suggested _ next nextWake new childHandles uncommitted stays =>
        subst from_
        obtain ⟨leaving, preempts⟩ := @Stays.retiring why [.reply reply suggested] run seen [] reply suggested next nextWake
          new childHandles why stays (List.mem_singleton_self _) waits kept last
        exact ⟨leaving.taking, preempts.last⟩
      | carried childHandles session other cycle fits =>
        rcases waits with waits | waits <;> rw [waits] at from_ <;> subst from_ <;> cases cycle
      | ended => rcases waits with waits | waits <;> rw [waits] at from_ <;> cases from_
      | handedOver => rcases waits with waits | waits <;> rw [waits] at from_ <;> cases from_
    | untaken waits none =>
      cases advanced with
      | left reason => exact leaveGate_taking none
      | @stayed reply suggested _ next nextWake new childHandles uncommitted stays =>
        subst from_
        have quiet : ∀ effect ∈ new, retirement effect = Option.none := fun effect member => (stays.plainly effect member).2.1
        have cycle : inCycle run.await = true := by
          refine waits.resolve_right fun gate => ?_
          rw [stays.awake] at gate
          cases gate
        rcases stays.goesOn cycle with working | ⟨outcome, closed⟩
        · exact still_untaken none (.inl working) quiet
        · obtain ⟨-, last⟩ := @still_untaken seen run new none waits quiet
          exact ⟨.finished (by rw [show _ = _ from closed]; rfl), last⟩
      | carried childHandles session other cycle fits => exact handed _ _ none
      | ended => exact loopTop_taking none
      | handedOver => exact handed _ _ none

/-- Before any request: only the step cap retires. -/
structure Unasked (stepCap : Option UInt64) (run : Run) (seen : List Effect) : Prop where
  cap : run.input.mandate.stepCap = stepCap
  unrequested : run.state.retirementRequest = none
  capped : ∀ mark ∈ seen, ∀ why, retirement mark = some why → ∃ tick, stepCapRetireReason tick stepCap = some why

theorem loopTop_unasked {ctx : Context} {resume : Option Session} {stepCap : Option UInt64}
    (cap : ctx.input.mandate.stepCap = stepCap) (unrequested : ctx.state.retirementRequest = none)
    (capped : ∀ mark ∈ seen, ∀ why, retirement mark = some why → ∃ tick, stepCapRetireReason tick stepCap = some why) :
    Unasked stepCap (ctx.loopTop resume).1 (seen ++ (ctx.loopTop resume).2) := by
  have goesOn : ∀ {result : Run × List Effect}, result.1.input.mandate.stepCap = stepCap →
      result.1.state.retirementRequest = none →
      (∀ mark ∈ result.2, ∀ why, retirement mark = some why → ∃ tick, stepCapRetireReason tick stepCap = some why) →
      Unasked stepCap result.1 (seen ++ result.2) := by
    intro result cap unrequested new
    refine ⟨cap, unrequested, fun mark member => ?_⟩
    rcases List.mem_append.mp member with earlier | later
    · exact capped mark earlier
    · exact new mark later
  unfold Context.loopTop
  split
  · rename_i reason reached
    refine goesOn cap unrequested fun mark member why retires => ?_
    cases List.mem_singleton.mp member
    cases retires
    exact ⟨_, cap ▸ reached⟩
  · refine goesOn cap unrequested fun mark member why retires => ?_
    obtain ⟨after, rfl⟩ := waitForTick_quiet ctx mark member
    cases retires
  · rw [unrequested]
    refine goesOn cap unrequested fun mark member why retires => ?_
    cases List.mem_singleton.mp member
    cases retires

theorem continueAsNew_unasked {ctx : Context} {input : AgentInput} {carryover : Carryover} {stepCap : Option UInt64}
    (carried : input.carryover = some carryover) (cap : input.mandate.stepCap = stepCap)
    (unrequested : carryover.retirementRequest = none)
    (capped : ∀ mark ∈ seen, ∀ why, retirement mark = some why → ∃ tick, stepCapRetireReason tick stepCap = some why) :
    Unasked stepCap (ctx.continueAsNew input).1 (seen ++ (ctx.continueAsNew input).2) := by
  obtain ⟨start, -, asked, rfl, begun⟩ := begin_carried ctx.workflowId carried
  have continued := @loopTop_unasked (seen ++ [.continueAsNew start.input]) start carryover.inFlight stepCap cap
    (asked.trans unrequested) (by
      intro mark member why retires
      rcases List.mem_append.mp member with earlier | leading
      · exact capped mark earlier why retires
      · cases List.mem_singleton.mp leading
        cases retires)
  rw [← begun, List.append_assoc] at continued
  exact continued

theorem Unasked.step {stepCap : Option UInt64} {next : Run} {event : Event} {new : List Effect}
    (unasked : Unasked stepCap run seen) (other : ∀ reason, event ≠ .signal (.retire reason))
    (stepped : workflow.step run event = some (next, new)) : Unasked stepCap next (seen ++ new) := by
  obtain ⟨cap, unrequested, capped⟩ := unasked
  obtain ⟨signal, rfl, open_, rfl, rfl⟩ | ⟨-, advances⟩ := step_cases stepped
  · rw [List.append_nil]
    refine ⟨cap, ?_, capped⟩
    cases signal with
    | retire reason => exact (other reason rfl).elim
    | _ => exact unrequested
  · obtain ⟨result, rfl, rfl, advanced⟩ := advances.result
    generalize run.await = await at advanced
    cases advanced with
    | left reason =>
      unfold Context.leaveGate
      simp only [drainBuckets, unrequested]
      refine ⟨cap, rfl, fun mark member why retires => ?_⟩
      rcases List.mem_append.mp member with earlier | later
      · exact capped mark earlier why retires
      · simp only [emit, Context.schedule, List.mem_cons, List.not_mem_nil, or_false] at later
        rcases later with rfl | rfl <;> cases retires
    | stayed childHandles uncommitted stays =>
      refine ⟨cap, unrequested, fun mark member why retires => ?_⟩
      rcases List.mem_append.mp member with earlier | later
      · exact capped mark earlier why retires
      · rw [(stays.plainly mark later).2.1] at retires
        cases retires
    | carried childHandles session other cycle fits => exact continueAsNew_unasked rfl cap unrequested capped
    | ended => exact loopTop_unasked cap unrequested capped
    | handedOver => exact continueAsNew_unasked rfl cap unrequested capped

end Steps

/-- A run that is not over goes on by itself, and at the wake gate without its timer. -/
theorem goes_on {run : Run} (open_ : isClosed run.await = false)
    (asked : atGate run.await = true → run.state.retirementRequest.isSome = true) :
    ∃ event next new, own event = true ∧ (∀ suggested, event ≠ .reply .failed suggested) ∧
      workflow.step run event = some (next, new) := by
  have replies : ∀ reply, reply ≠ .failed → run.resume false run.await reply ≠ none →
      ∃ event next new, own event = true ∧ (∀ suggested, event ≠ .reply .failed suggested) ∧
        workflow.step run event = some (next, new) := by
    intro reply succeeds resumes
    obtain ⟨⟨next, new⟩, resumed⟩ := Option.ne_none_iff_exists'.mp resumes
    exact ⟨.reply reply false, next, new, rfl, fun suggested failed => by cases failed; exact succeeds rfl, resumed⟩
  cases waits : run.await with
  | waitForTick wakeAfter armed =>
    have signalled : run.state.signalled = true := by
      have some := asked (by rw [waits]; rfl)
      simp [AgentWorkflow.signalled, some]
    refine ⟨.woken, run.leaveGate.1, run.leaveGate.2, rfl, nofun, ?_⟩
    change run.step .woken = _
    unfold Run.step
    rw [waits]
    simp only [signalled, if_true]
  | buildSeed => exact replies (.seedBuilt ⟨run.input.mandate, [], {}⟩) nofun (by rw [waits]; nofun)
  | decideStep session step => exact replies (.decided (.idle ⟨0⟩)) nofun (by rw [waits]; nofun)
  | logDecision session step action => exact replies .logged nofun (by rw [waits]; nofun)
  | executeAction session step action executing =>
    have answers : ∀ reply, reply ≠ .failed → run.answer executing reply ≠ none →
        ∃ event next new, own event = true ∧ (∀ suggested, event ≠ .reply .failed suggested) ∧
          workflow.step run event = some (next, new) := by
      intro reply succeeds answered
      refine replies reply succeeds ?_
      rw [waits]
      simpa [Context.resume] using answered
    cases executing with
    | executeTools calls =>
      exact answers (.toolsExecuted (List.replicate calls (.success ""))) nofun (by simp [Context.answer])
    | persistOutput => exact answers (.outputPersisted none (.success "")) nofun nofun
    | signalParent observation => exact answers .signalSent nofun nofun
    | applyFsOps => exact answers (.fsOpsApplied (.success "")) nofun nofun
    | readFs => exact answers (.fsRead (.success "")) nofun nofun
    | registerChild agentName mandate => exact answers (.childRegistered (.rejectedUnknownTool "")) nofun nofun
    | startChild agentName childAgentId => exact answers .childStarted nofun nofun
    | reconcileChildren sources => exact answers (.reconcileFailed "") nofun nofun
    | signalRetire childRef replacement => exact answers .signalSent nofun (by cases replacement <;> nofun)
  | commitTick => exact replies .committed nofun (by rw [waits]; nofun)
  | persistRetirement reason => exact replies .retirementPersisted nofun (by rw [waits]; nofun)
  | signalParent reason => exact replies .signalSent nofun (by rw [waits]; nofun)
  | closed outcome =>
    rw [waits] at open_
    cases open_

/-- What a workflow does once a `retire` signal has come. -/
structure Preempted (reason : String) (since : List Event) (received run : Run) (already done : List Effect) : Prop where
  unseeded : ∀ effect ∈ done, isSeed effect = false
  /-- The retirement is persisted once, and nothing is left then but to tell the parent and return. -/
  last : Last (already ++ done)
  returned : ∀ outcome, run.await = .closed outcome →
    (outcome = .failed ∧ ∃ suggested, .reply .failed suggested ∈ since) ∨
      ∃ mark ∈ already ++ done, ∃ why, retirement mark = some why ∧ outcome = .completed (.retired why)
  /-- Every step that is not a signal brings the workflow nearer to its end. -/
  progress : since.countP own + remaining run.await ≤ remaining received.await
  goesOn : isClosed run.await = false → ∃ event next new, own event = true ∧
    (∀ suggested, event ≠ .reply .failed suggested) ∧ workflow.step run event = some (next, new)
  steps : ∀ event next new, workflow.step run event = some (next, new) →
    Preempts (latestReason reason since) run.input.mandate.stepCap (already ++ done) done new

theorem latestReason_snoc (reason : String) (events : List Event) (event : Event) :
    latestReason reason (events ++ [event]) = latestReason (latestReason reason events) [event] :=
  List.foldl_append

/-- A request that is received while the workflow is open waits in its state. -/
theorem received_leaving {workflowId : String} {input : AgentInput} {earlier : List Event} {reason : String}
    {received : Run} {already : List Effect}
    (lived : lifetime workflowId input (earlier ++ [.signal (.retire reason)]) = some (received, already)) :
    ∃ run, lifetime workflowId input earlier = some (run, already) ∧ Leaving reason [] received already [] ∧ Last already := by
  obtain ⟨⟨final, later⟩, ran, shape⟩ := Option.map_eq_some_iff.mp lived
  obtain ⟨run, first, rest, before, stepped, rfl⟩ := workflow.run_snoc.mp ran
  obtain ⟨signal, asked, open_, rfl, rfl⟩ | ⟨other, -⟩ := step_cases stepped
  · cases asked
    rw [List.append_nil] at shape
    obtain ⟨rfl, rfl⟩ := Prod.mk.inj shape
    have lived : lifetime workflowId input earlier = some (run, (begin workflowId input).2 ++ first) := by
      unfold lifetime
      rw [before]
      rfl
    obtain ⟨taking, last⟩ := lifetime_invariant (fun _ run effects => Taking run effects ∧ Last effects)
      (@begin_taking [] workflowId input (by simp)) (fun _ _ _ _ _ _ taking stepped => taking.1.step taking.2 stepped) lived
    refine ⟨run, lived, ?_, last⟩
    cases taking with
    | untaken waits none => exact .pending rfl waits none (by simp)
    | taken why waits kept => exact .taken why waits kept
    | finished closed =>
      rw [closed] at open_
      cases open_
  · exact (other _ rfl).elim

/-- From the first `retire` signal on, the workflow only comes to its end. -/
theorem retirement_preempts (workflowId : String) (input : AgentInput) (earlier since : List Event) (reason : String)
    (received run : Run) (already done : List Effect)
    (lived : lifetime workflowId input (earlier ++ [.signal (.retire reason)]) = some (received, already))
    (ran : workflow.run received since = some (run, done)) :
    Preempted reason since received run already done ∧
      (input.carryover.bind (·.retirementRequest) = none → (∀ given, .signal (.retire given) ∉ earlier) →
        ∀ mark ∈ already, ∀ why, retirement mark = some why →
          ∃ tick, stepCapRetireReason tick input.mandate.stepCap = some why) := by
  obtain ⟨before, living, start, ended⟩ := received_leaving lived
  refine ⟨?_, ?_⟩
  · obtain ⟨leaving, unseeded, last, progress⟩ := workflow.history_invariant (fun since run done =>
        Leaving (latestReason reason since) since run (already ++ done) done ∧ (∀ effect ∈ done, isSeed effect = false) ∧
          Last (already ++ done) ∧ since.countP own + remaining run.await ≤ remaining received.await)
      ⟨by simpa [latestReason] using start, by simp, by simpa using ended, by simp⟩ (by
        rintro events run done event next new ⟨leaving, unseeded, last, progress⟩ stepped
        obtain ⟨left, preempts, shorter⟩ := leaving.step last stepped
        rw [latestReason_snoc, ← List.append_assoc]
        refine ⟨left, ?_, preempts.last, ?_⟩
        · intro effect member
          rcases List.mem_append.mp member with old | fresh
          · exact unseeded effect old
          · exact preempts.unseeded effect fresh
        · rw [List.countP_append, List.countP_singleton]
          omega) ran
    refine ⟨unseeded, last, ?_, progress, ?_, ?_⟩
    · intro outcome closed
      cases leaving with
      | pending request waits untaken resting => rcases waits with waits | waits <;> rw [closed] at waits <;> cases waits
      | taken why waits kept => rcases waits with waits | waits <;> rw [closed] at waits <;> cases waits
      | finished other there returned =>
        rw [closed] at there
        cases there
        exact returned
    · intro open_
      refine goes_on open_ fun gate => ?_
      cases leaving with
      | pending request waits untaken resting => rw [request]; rfl
      | taken why waits kept => rcases waits with waits | waits <;> rw [waits] at gate <;> cases gate
      | finished other there returned =>
        rw [there] at gate
        cases gate
    · intro event next new stepped
      exact (leaving.step last stepped).2.1
  · intro uncarried unasked
    have first : (∀ given, .signal (.retire given) ∉ earlier) → Unasked input.mandate.stepCap before already := by
      refine lifetime_invariant (fun events run effects => (∀ given, .signal (.retire given) ∉ events) →
        Unasked input.mandate.stepCap run effects) ?_ ?_ living
      · intro _
        have started : ∃ ctx : Context, ctx.input = input ∧ ctx.state.retirementRequest = none ∧
            begin workflowId input = ctx.loopTop (input.carryover.bind (·.inFlight)) := by
          unfold begin
          cases carried : input.carryover with
          | none => exact ⟨_, rfl, rfl, rfl⟩
          | some carryover =>
            rw [carried] at uncarried
            exact ⟨_, rfl, uncarried, rfl⟩
        obtain ⟨ctx, same, unrequested, begun⟩ := started
        rw [begun]
        exact @loopTop_unasked [] ctx _ _ (by rw [same]) unrequested (by simp)
      · intro events run effects event next more unasked stepped given
        refine (unasked fun reason member => given reason (by simp [member])).step ?_ stepped
        rintro reason rfl
        exact given reason (by simp)
    exact (first unasked).capped

/-- A second reason that comes while the retirement is persisted is not returned, and a cycle
whose activity fails ends in the failure, with nothing persisted. -/
theorem later_reason_ignored :
    let input := AgentInput.newForTest ⟨⟨0⟩⟩ ⟨⟨1⟩⟩ "root"
    let events : List Event := [.signal (.retire "first"), .woken, .signal (.retire "second"), .reply .retirementPersisted false]
    let failing : List Event := [.timerFired, .signal (.retire "stop"), .reply .failed false]
    (∃ run effects, lifetime "root" input events = some (run, effects) ∧ run.await = .closed (.completed (.retired "first"))) ∧
      latestReason "" events = "second" ∧ (∀ tick, stepCapRetireReason tick input.mandate.stepCap ≠ some "first") ∧
      ∃ run effects, lifetime "root" input failing = some (run, effects) ∧ run.await = .closed .failed ∧
        ∀ effect ∈ effects, retirement effect = none := by
  refine ⟨⟨_, _, rfl, rfl⟩, rfl, ?_, _, _, rfl, rfl, ?_⟩
  · intro tick capped
    obtain ⟨-, same⟩ := Option.ite_none_right_eq_some.mp capped
    revert same
    decide +kernel
  · decide

/-- Asked in its first cycle, the workflow finishes it, retires at the gate and returns. -/
theorem retirement_preempts_cycle :
    let input := AgentInput.newForTest ⟨⟨0⟩⟩ ⟨⟨1⟩⟩ "root"
    let since : List Event := [.reply (.seedBuilt ⟨input.mandate, [], {}⟩) false, .reply (.decided (.idle ⟨0⟩)) false,
      .reply .logged false, .reply .committed false, .woken, .reply .retirementPersisted false]
    ∃ received run already done, lifetime "root" input ([.timerFired] ++ [.signal (.retire "stop")]) = some (received, already) ∧
      workflow.run received since = some (run, done) ∧ run.await = .closed (.completed (.retired "stop")) ∧
      Preempted "stop" since received run already done := by
  intro input since
  exact ⟨_, _, _, _, rfl, rfl, rfl,
    (retirement_preempts "root" input [.timerFired] since "stop" _ _ _ _ rfl rfl).1⟩

end Coral.Temporal.Proofs

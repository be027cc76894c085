import Coral.Library.Rounds
import Coral.Proofs.ChildReplacement

/-! What an agent logs and commits over its life. A cycle is a round of decisions: each is
logged under the cycle's tick and its own step before it is executed, and a cycle that comes
to its end is committed once. -/

namespace Coral.Temporal.Proofs
open Coral.Library

def logged (effects : List Effect) : List ((Nat × Nat) × Decision) := effects.filterMap fun
  | .activity (.appendDecisionLog _ tick step decision) => some ((tick.toNat, step.toNat), decision)
  | _ => none

def commits (effects : List Effect) : List Nat := effects.filterMap fun
  | .activity (.commitTick _ tick) => some tick.toNat
  | _ => none

/-- A cycle begins with its seed. -/
def seeds (effects : List Effect) : Nat := effects.countP fun
  | .activity (.buildSeed _ _ _ _ _) => true
  | _ => false

/-- The commands that executing an action consists of. -/
def isCommand : Effect → Bool
  | .activity (.executeTool _ _ _ _ _) | .activity (.persistOutput _ _ _ _ _) | .activity (.applyFsOps _ _ _)
  | .activity (.readFs _ _) | .activity (.registerChild _ _ _ _) | .activity (.reconcileChildren _ _ _ _)
  | .startChild _ _ | .signalWorkflow _ (.retire _) | .signalWorkflow _ (.externalSignal (.childOutput _ _ _)) => true
  | _ => false

/-- The command is one of this action's. -/
def Issues : Decision → Effect → Prop
  | .callTools calls, .activity (.executeTool _ _ _ _ call) => call ∈ calls
  | .writeOutput body citations, .activity (.persistOutput _ _ _ written cited) => written = body ∧ cited = citations
  | .writeOutput _ _, .signalWorkflow _ (.externalSignal (.childOutput _ _ _)) => True
  | .rewriteFs ops, .activity (.applyFsOps _ _ applied) => applied = ops
  | .read path, .activity (.readFs _ op) => op = .read path
  | .list path, .activity (.readFs _ op) => op = .list path
  | .search query path, .activity (.readFs _ op) => op = .search query path
  | .spawnChild _ mandate, .activity (.registerChild _ _ _ tools) => tools = mandate.tools
  | .spawnChild _ mandate, .startChild _ input => input.mandate = mandate
  | .reconcileChildren sources conflict, .activity (.reconcileChildren _ _ read record) =>
    read = sources ∧ record = conflict
  | .retireChild childRef reason, .signalWorkflow workflowId signal =>
    workflowId = childRef.workflowId ∧ signal = .retire reason
  | .replaceChild childRef _, .signalWorkflow workflowId (.retire _) => workflowId = childRef.workflowId
  | .replaceChild _ mandate, .activity (.registerChild _ _ _ tools) => tools = mandate.tools
  | .replaceChild _ mandate, .startChild _ input => input.mandate = mandate
  | _, _ => False

def isCommit : Effect → Bool
  | .activity (.commitTick _ _) => true
  | _ => false

/-- What ends a cycle: an idle decision, the runaway fuse, or a session too large to carry. -/
def closesCycle : Effect → Bool
  | .activity (.appendDecisionLog _ _ _ decision) => decision.idleAfter.isSome
  | .runawayFuse _ | .forceIdle _ => true
  | _ => false

/-- The cycle that an effect is recorded under. -/
def recordedTick : Effect → Option Nat
  | .activity (.appendDecisionLog _ tick _ _) | .activity (.commitTick _ tick) => some tick.toNat
  | _ => none

/-- An effect of no consequence for the journal. -/
def unrecorded : Effect → Bool
  | .activity (.appendDecisionLog _ _ _ _) | .activity (.commitTick _ _) | .activity (.buildSeed _ _ _ _ _)
  | .runawayFuse _ | .forceIdle _ => false
  | _ => true

theorem unrecorded_effect {effect : Effect} (quiet : unrecorded effect = true) :
    recordedTick effect = none ∧ isCommit effect = false ∧ closesCycle effect = false := by
  cases effect with
  | activity activity =>
    cases activity <;> first
      | exact ⟨rfl, rfl, rfl⟩
      | cases quiet
  | runawayFuse steps => cases quiet
  | forceIdle bytes => cases quiet
  | _ => exact ⟨rfl, rfl, rfl⟩

theorem unrecorded_effects {effects : List Effect} (quiet : ∀ effect ∈ effects, unrecorded effect = true) :
    logged effects = [] ∧ commits effects = [] ∧ seeds effects = 0 := by
  induction effects with
  | nil => exact ⟨rfl, rfl, rfl⟩
  | cons effect effects ih =>
    obtain ⟨first, others⟩ := List.forall_mem_cons.mp quiet
    obtain ⟨logs, committed, seeded⟩ := ih others
    unfold logged commits seeds at *
    cases effect with
    | activity activity =>
      cases activity <;> first
        | exact ⟨logs, committed, seeded⟩
        | cases first
    | _ => exact ⟨logs, committed, seeded⟩

@[simp] theorem logged_append (first second : List Effect) : logged (first ++ second) = logged first ++ logged second :=
  List.filterMap_append

@[simp] theorem commits_append (first second : List Effect) :
    commits (first ++ second) = commits first ++ commits second := List.filterMap_append

@[simp] theorem seeds_append (first second : List Effect) : seeds (first ++ second) = seeds first + seeds second :=
  List.countP_append

/-- What is being executed belongs to the action. -/
def Carries : Decision → Executing → Prop
  | .callTools _, .executeTools _ | .writeOutput _ _, .persistOutput | .writeOutput _ _, .signalParent _
  | .rewriteFs _, .applyFsOps | .read _, .readFs | .list _, .readFs | .search _ _, .readFs
  | .reconcileChildren _ _, .reconcileChildren _ | .retireChild _ _, .signalRetire _ none
  | .spawnChild _ _, .startChild _ _ | .replaceChild _ _, .startChild _ _ => True
  | .spawnChild _ mandate, .registerChild _ granted | .replaceChild _ mandate, .registerChild _ granted
  | .replaceChild _ mandate, .signalRetire _ (some (_, granted)) => granted = mandate
  | _, _ => False

/-- A cycle in progress, after so many logged steps. -/
structure During (tick : Nat) (counts : List Nat) (ended steps : Nat) : Prop where
  uncommitted : ended = tick
  rounds : ∃ earlier, counts = earlier ++ [steps] ∧ earlier.length = tick

/-- What must have come before an effect: a command's action is the one logged last; the cycle
that it is recorded under is the one begun last; and a commit comes right after the end. -/
structure Follows (before : List Effect) (effect : Effect) : Prop where
  command : isCommand effect = true →
    ∃ key action, (logged before).getLast? = some (key, action) ∧ Issues action effect
  placed : ∀ tick, recordedTick effect = some tick → tick + 1 = seeds before
  ending : isCommit effect = true → ∃ mark, before.getLast? = some mark ∧ closesCycle mark = true

def Ordered (effects : List Effect) : Prop :=
  ∀ before effect after, effects = before ++ effect :: after → Follows before effect

/-- The end of a cycle is committed at once, unless the workflow fails on it. -/
def Concluded (effects : List Effect) : Prop :=
  ∀ before mark next after, effects = before ++ mark :: next :: after → closesCycle mark = true →
    isCommit next = true ∨ next = .closed .failed

/-- The length of the session that an effect is given. -/
def sessionLength : Effect → Option Nat
  | .runawayFuse steps => some steps
  | .activity (.decideStep session) => some session.len
  | .continueAsNew next => (next.carryover.bind (·.inFlight)).map (·.len)
  | _ => none

def Bounded (effects : List Effect) : Prop :=
  ∀ effect ∈ effects, ∀ length, sessionLength effect = some length → length ≤ CYCLE_RUNAWAY_FUSE

/-- No cycle has come to its end just now. -/
def Settled (effects : List Effect) : Prop := ∀ mark, effects.getLast? = some mark → closesCycle mark = false

/-- What is written, by how many decisions each cycle begun has logged and how many have ended. -/
structure Written (effects : List Effect) (counts : List Nat) (ended : Nat) : Prop where
  keys : (logged effects).map (·.1) = roundKeys counts
  begun : seeds effects = counts.length
  committed : commits effects = List.range ended
  ordered : Ordered effects
  concluded : Concluded effects
  bounded : Bounded effects

theorem ordered_nil : Ordered [] := by
  intro before effect after split
  simp at split

theorem Ordered.snoc {effects : List Effect} {effect : Effect} (ordered : Ordered effects)
    (follows : Follows effects effect) : Ordered (effects ++ [effect]) := by
  intro before other after split
  rcases List.append_eq_append_iff.mp split with ⟨front, rfl, rest⟩ | ⟨front, rfl, rest⟩
  · cases front with
    | nil =>
      cases rest
      simpa using follows
    | cons first front => simp at rest
  · cases front with
    | nil =>
      cases rest
      simpa using follows
    | cons first front =>
      obtain ⟨rfl, rfl⟩ := List.cons.inj rest
      exact ordered before other front rfl

theorem concluded_nil : Concluded [] := by
  intro before mark next after split
  simp at split

theorem Concluded.snoc {effects : List Effect} {effect : Effect} (concluded : Concluded effects)
    (open_ : Settled effects ∨ isCommit effect = true ∨ effect = .closed .failed) : Concluded (effects ++ [effect]) := by
  intro before mark next after split ends
  rcases List.eq_nil_or_concat after with rfl | ⟨front, last, rfl⟩
  · have same : effects ++ [effect] = (before ++ [mark]) ++ [next] := by simpa using split
    obtain ⟨rfl, last⟩ := List.append_inj' same rfl
    cases last
    rcases open_ with settled | concluded
    · rw [settled mark (by simp)] at ends
      cases ends
    · exact concluded
  · have same : effects ++ [effect] = (before ++ mark :: next :: front) ++ [last] := by simpa using split
    exact concluded before mark next front (List.append_inj' same rfl).1 ends

theorem bounded_nil : Bounded [] := fun _ member => (List.not_mem_nil member).elim

theorem Bounded.snoc {effects : List Effect} {effect : Effect} (bounded : Bounded effects)
    (later : ∀ length, sessionLength effect = some length → length ≤ CYCLE_RUNAWAY_FUSE) :
    Bounded (effects ++ [effect]) := by
  intro other member
  rcases List.mem_append.mp member with earlier | last
  · exact bounded other earlier
  · cases List.mem_singleton.mp last
    exact later

/-- An effect that hands no session on. -/
theorem sessionless {effect : Effect} (without : sessionLength effect = none) (length : Nat)
    (carried : sessionLength effect = some length) : length ≤ CYCLE_RUNAWAY_FUSE := by
  rw [without] at carried
  cases carried

theorem settled_nil : Settled [] := by
  intro mark last
  cases last

theorem settled_snoc {effects : List Effect} {effect : Effect} (open_ : closesCycle effect = false) :
    Settled (effects ++ [effect]) := by
  intro mark last
  rw [List.getLast?_append, List.getLast?_singleton] at last
  cases last
  exact open_

theorem settled_append {effects more : List Effect} (settled : Settled effects)
    (quiet : ∀ effect ∈ more, unrecorded effect = true) : Settled (effects ++ more) := by
  rcases List.eq_nil_or_concat more with rfl | ⟨front, last, rfl⟩
  · rwa [List.append_nil]
  · rw [List.concat_eq_append, ← List.append_assoc]
    exact settled_snoc (unrecorded_effect (quiet last (by simp))).2.2

namespace Written

variable {effects : List Effect} {counts : List Nat} {ended : Nat}

theorem nil : Written [] [] 0 := ⟨rfl, rfl, rfl, ordered_nil, concluded_nil, bounded_nil⟩

/-- Effects that record nothing. -/
theorem quiet (written : Written effects counts ended) {more : List Effect}
    (unrecorded_more : ∀ effect ∈ more, unrecorded effect = true)
    (issued : ∀ command ∈ more, isCommand command = true →
      ∃ key action, (logged effects).getLast? = some (key, action) ∧ Issues action command)
    (bounded : Bounded more) (open_ : Settled effects ∨ more = [.closed .failed]) :
    Written (effects ++ more) counts ended := by
  obtain ⟨logs, committed, seeded⟩ := unrecorded_effects unrecorded_more
  refine ⟨?_, ?_, ?_, ?_, ?_, ?_⟩
  · rw [logged_append, logs, List.append_nil]
    exact written.keys
  · rw [seeds_append, seeded]
    exact written.begun
  · rw [commits_append, committed, List.append_nil]
    exact written.committed
  · clear bounded open_ logs committed seeded
    induction more using List.reverseRecOn with
    | nil => simpa using written.ordered
    | append_singleton front effect ih =>
      have before := ih (fun other member => unrecorded_more other (by simp [member]))
        (fun other member => issued other (by simp [member]))
      rw [← List.append_assoc]
      obtain ⟨tickless, uncommitting, -⟩ := unrecorded_effect (unrecorded_more effect (by simp))
      have logs := (unrecorded_effects (show ∀ other ∈ front, unrecorded other = true from
        fun other member => unrecorded_more other (by simp [member]))).1
      refine before.snoc ⟨?_, ?_, ?_⟩
      · rw [logged_append, logs, List.append_nil]
        exact issued effect (by simp)
      · rw [tickless]
        nofun
      · rw [uncommitting]
        nofun
  · rcases open_ with settled | failed
    · clear bounded issued logs committed seeded
      induction more using List.reverseRecOn with
      | nil => simpa using written.concluded
      | append_singleton front effect ih =>
        have earlier : ∀ other ∈ front, unrecorded other = true :=
          fun other member => unrecorded_more other (by simp [member])
        rw [← List.append_assoc]
        exact (ih earlier).snoc (.inl (settled_append settled earlier))
    · subst failed
      exact written.concluded.snoc (.inr (.inr rfl))
  · intro effect member
    rcases List.mem_append.mp member with earlier | new
    · exact written.bounded effect earlier
    · exact bounded effect new

/-- A decision is logged. -/
theorem log {earlier : List Nat} {steps : Nat} (written : Written effects (earlier ++ [steps]) ended)
    (settled : Settled effects) {fsHandle : FsHandle} {tick step : UInt64} {action : Decision}
    (rounds : earlier.length = tick.toNat) (indexed : step.toNat = steps) :
    Written (effects ++ [.activity (.appendDecisionLog fsHandle tick step action)]) (earlier ++ [steps + 1]) ended := by
  have entry : logged [.activity (.appendDecisionLog fsHandle tick step action)] = [((tick.toNat, steps), action)] := by
    rw [← indexed]
    rfl
  refine ⟨?_, ?_, ?_, written.ordered.snoc ⟨nofun, ?_, nofun⟩, written.concluded.snoc (.inl settled),
    written.bounded.snoc nofun⟩
  · rw [logged_append, entry, List.map_append, written.keys, roundKeys_next, rounds]
    rfl
  · rw [seeds_append, written.begun, List.length_append, List.length_append]
    rfl
  · rw [commits_append, written.committed]
    exact List.append_nil _
  · intro recorded same
    cases same
    rw [written.begun, List.length_append, rounds]
    rfl

/-- A cycle begins. -/
theorem seed (written : Written effects counts ended) (settled : Settled effects) {mandate : Mandate}
    {fsHandle : FsHandle} {triggers : List Trigger} {humanOps : List HumanOp} {mandatePatches : List MandatePatch} :
    Written (effects ++ [.activity (.buildSeed mandate fsHandle triggers humanOps mandatePatches)]) (counts ++ [0])
      ended := by
  refine ⟨?_, ?_, ?_, written.ordered.snoc ⟨nofun, nofun, nofun⟩, written.concluded.snoc (.inl settled),
    written.bounded.snoc nofun⟩
  · rw [logged_append, roundKeys_open]
    exact (congrArg _ (List.append_nil _)).trans written.keys
  · rw [seeds_append, written.begun, List.length_append]
    rfl
  · rw [commits_append, written.committed]
    exact List.append_nil _

/-- A cycle comes to its end otherwise than by a decision. -/
theorem mark (written : Written effects counts ended) (settled : Settled effects) {mark : Effect}
    (forced : (∃ bytes, mark = .forceIdle bytes) ∨ ∃ steps, mark = .runawayFuse steps ∧ steps ≤ CYCLE_RUNAWAY_FUSE) :
    Written (effects ++ [mark]) counts ended := by
  have plain : logged [mark] = [] ∧ seeds [mark] = 0 ∧ commits [mark] = [] ∧ Follows effects mark := by
    rcases forced with ⟨bytes, rfl⟩ | ⟨steps, rfl, -⟩ <;> exact ⟨rfl, rfl, rfl, nofun, nofun, nofun⟩
  obtain ⟨logs, seeded, committed, follows⟩ := plain
  refine ⟨?_, ?_, ?_, written.ordered.snoc follows, written.concluded.snoc (.inl settled), written.bounded.snoc ?_⟩
  · rw [logged_append, logs, List.append_nil]
    exact written.keys
  · rw [seeds_append, seeded]
    exact written.begun
  · rw [commits_append, committed, List.append_nil]
    exact written.committed
  · intro length same
    rcases forced with ⟨bytes, rfl⟩ | ⟨steps, rfl, short⟩ <;> cases same
    exact short

/-- A cycle that has come to its end is committed. -/
theorem commit (written : Written effects counts ended) {fsHandle : FsHandle} {tick : UInt64} {mark : Effect}
    (last : effects.getLast? = some mark) (ends : closesCycle mark = true) (uncommitted : ended = tick.toNat)
    (rounds : counts.length = tick.toNat + 1) :
    Written (effects ++ [.activity (.commitTick fsHandle tick)]) counts (ended + 1) := by
  refine ⟨?_, ?_, ?_, written.ordered.snoc ⟨nofun, ?_, fun _ => ⟨mark, last, ends⟩⟩,
    written.concluded.snoc (.inr (.inl rfl)), written.bounded.snoc nofun⟩
  · rw [logged_append]
    exact (congrArg _ (List.append_nil _)).trans written.keys
  · rw [seeds_append]
    exact written.begun
  · rw [commits_append, written.committed, List.range_succ, uncommitted]
    rfl
  · intro recorded same
    cases same
    rw [written.begun, rounds]

end Written

/-- A decision that ends the cycle is being logged. -/
def Ending (run : Run) : Prop :=
  ∃ session step action nextAfter, run.await = .logDecision session step action ∧ action.idleAfter = some nextAfter

/-- How far the journal has come when the workflow waits. -/
def Stands (tick : Nat) (counts : List Nat) (ended : Nat) (effects : List Effect) : Await → Prop
  | .waitForTick _ _ => ended = tick ∧ counts.length = tick
  | .buildSeed => During tick counts ended 0
  | .decideStep session _ => session.len < CYCLE_RUNAWAY_FUSE ∧ During tick counts ended session.len
  | .logDecision session step action => session.len < CYCLE_RUNAWAY_FUSE ∧ During tick counts ended (session.len + 1) ∧
    (logged effects).getLast? = some ((tick, session.len), action) ∧
      ∃ fsHandle logTick, effects.getLast? = some (.activity (.appendDecisionLog fsHandle logTick step action))
  | .executeAction session _ action executing => session.len < CYCLE_RUNAWAY_FUSE ∧
    During tick counts ended (session.len + 1) ∧ (logged effects).getLast? = some ((tick, session.len), action) ∧
      Carries action executing
  | .commitTick => ended = tick + 1 ∧ counts.length = tick + 1
  | .persistRetirement _ | .signalParent _ | .closed _ => ended = counts.length ∨ ended + 1 = counts.length

structure Journal (run : Run) (effects : List Effect) (counts : List Nat) (ended : Nat) : Prop
    extends Written effects counts ended where
  stands : Stands run.state.tick.toNat counts ended effects run.await
  settled : ¬ Ending run → Settled effects

/-- What executing an action asks for is its own. -/
structure Asks (action : Decision) (request : Executing × List Effect) : Prop where
  carries : Carries action request.1
  unrecorded : ∀ effect ∈ request.2, unrecorded effect = true
  issues : ∀ effect ∈ request.2, Issues action effect
  bounded : Bounded request.2

theorem executeAction_asks {ctx : Context} {action : Decision} {request : Executing × List Effect}
    (asked : ctx.executeAction action = some request) : Asks action request := by
  cases action with
  | callTools calls =>
    cases asked
    have each : ∀ effect ∈ calls.map fun call => Effect.activity (.executeTool ctx.input.cfg ctx.input.fsHandle
        ctx.input.graphId ctx.input.mandate.tools call), ∃ call ∈ calls, effect = .activity (.executeTool ctx.input.cfg
          ctx.input.fsHandle ctx.input.graphId ctx.input.mandate.tools call) := by
      intro effect member
      obtain ⟨call, among, rfl⟩ := List.mem_map.mp member
      exact ⟨call, among, rfl⟩
    refine ⟨trivial, ?_, ?_, ?_⟩
    · intro effect member
      obtain ⟨call, among, rfl⟩ := each effect member
      rfl
    · intro effect member
      obtain ⟨call, among, rfl⟩ := each effect member
      exact among
    · intro effect member
      obtain ⟨call, among, rfl⟩ := each effect member
      nofun
  | idle nextAfter => cases asked
  | _ =>
    cases asked
    refine ⟨?_, ?_, ?_, ?_⟩
    · trivial
    all_goals
      intro effect member
      cases List.mem_singleton.mp member
      first
        | rfl
        | exact ⟨rfl, rfl⟩
        | nofun

theorem answer_asks {ctx : Context} {action : Decision} {executing : Executing} {reply : Reply}
    {childHandles : List AgentRef} {request : Executing × List Effect} (carries : Carries action executing)
    (answered : ctx.answer executing reply = some (.asks childHandles request)) : Asks action request := by
  have single : ∀ {then_ : Executing} {effect : Effect}, Carries action then_ → unrecorded effect = true →
      Issues action effect → sessionLength effect = none → Asks action (then_, [effect]) := by
    intro then_ effect carries quiet issues unbounded
    refine ⟨carries, ?_, ?_, ?_⟩
    all_goals
      intro other member
      cases List.mem_singleton.mp member
    · exact quiet
    · exact issues
    · intro length same
      rw [unbounded] at same
      cases same
  cases executing with
  | persistOutput =>
    cases action with
    | writeOutput body citations =>
      cases reply with
      | outputPersisted outputId observation =>
        cases outputId with
        | none => cases answered
        | some outputId =>
          cases parent : ctx.input.parentHandle with
          | none => simp [Context.answer, parent] at answered
          | some parent =>
            simp only [Context.answer, parent, Option.some.injEq, Answer.asks.injEq] at answered
            obtain ⟨-, rfl⟩ := answered
            exact single trivial rfl trivial rfl
      | _ => cases answered
    | _ => exact carries.elim
  | registerChild agentName granted =>
    rcases answer_registerChild answered with ⟨child, -, same⟩ | ⟨tool, failure, -, same⟩ | same <;> cases same
    cases action with
    | spawnChild name mandate =>
      cases carries
      exact single trivial rfl rfl rfl
    | replaceChild childRef mandate =>
      cases carries
      exact single trivial rfl rfl rfl
    | _ => exact carries.elim
  | signalRetire childRef replacement =>
    cases replacement with
    | none => cases reply <;> cases answered
    | some replacement =>
      obtain ⟨agentName, granted⟩ := replacement
      cases answer_signalRetire answered
      cases action with
      | replaceChild other mandate =>
        cases carries
        exact single rfl rfl rfl rfl
      | _ => exact carries.elim
  | executeTools calls =>
    cases reply with
    | toolsExecuted outcomes =>
      change (if _ then _ else _) = _ at answered
      split at answered <;> cases answered
    | _ => cases answered
  | _ => cases reply <;> cases answered

section Steps

variable {run next : Run} {effects more : List Effect} {counts : List Nat} {ended : Nat}

/-- A step that records nothing. -/
theorem Written.goesOn (written : Written effects counts ended) (unrecorded_more : ∀ effect ∈ more, unrecorded effect = true)
    (issued : ∀ command ∈ more, isCommand command = true →
      ∃ key action, (logged effects).getLast? = some (key, action) ∧ Issues action command)
    (bounded : Bounded more) (open_ : Settled effects ∨ more = [.closed .failed])
    (stands : ∀ all, logged all = logged effects → Stands next.state.tick.toNat counts ended all next.await) :
    Journal next (effects ++ more) counts ended := by
  refine ⟨written.quiet unrecorded_more issued bounded open_, stands _ ?_, fun _ => ?_⟩
  · rw [logged_append, (unrecorded_effects unrecorded_more).1, List.append_nil]
  · rcases open_ with settled | rfl
    · exact settled_append settled unrecorded_more
    · exact settled_snoc rfl

/-- One effect that records nothing and is no command. -/
theorem Written.one (written : Written effects counts ended) {effect : Effect} (quiet : unrecorded effect = true)
    (uncommanded : isCommand effect = false)
    (bounded : ∀ length, sessionLength effect = some length → length ≤ CYCLE_RUNAWAY_FUSE)
    (open_ : Settled effects ∨ effect = .closed .failed)
    (stands : ∀ all, logged all = logged effects → Stands next.state.tick.toNat counts ended all next.await) :
    Journal next (effects ++ [effect]) counts ended := by
  refine written.goesOn ?_ ?_ ?_ (open_.imp_right fun failed => by rw [failed]) stands
  all_goals
    intro other member
    cases List.mem_singleton.mp member
  · exact quiet
  · rw [uncommanded]
    nofun
  · exact bounded

theorem During.open_ {tick steps : Nat} (during : During tick counts ended steps) : ended + 1 = counts.length := by
  obtain ⟨uncommitted, earlier, rfl, rounds⟩ := during
  rw [uncommitted, List.length_append, rounds]
  rfl

/-- Between two cycles. -/
theorem loopTop_between (ctx : Context) (written : Written effects counts ended) (settled : Settled effects)
    (uncommitted : ended = ctx.state.tick.toNat) (rounds : counts.length = ctx.state.tick.toNat) :
    Journal (ctx.loopTop none).1 (effects ++ (ctx.loopTop none).2) counts ended := by
  unfold Context.loopTop
  split
  · exact written.one rfl rfl (sessionless rfl) (.inl settled) fun _ _ => .inl (uncommitted.trans rounds.symm)
  · have timers := waitForTick_quiet ctx
    refine written.goesOn ?_ ?_ ?_ (.inl settled) fun _ _ => ⟨uncommitted, rounds⟩
    all_goals
      intro effect member
      obtain ⟨after, rfl⟩ := timers effect member
    · rfl
    · nofun
    · nofun
  · rename_i impossible
    cases impossible

/-- In a cycle that a continue-as-new suspended. -/
theorem loopTop_resumed (ctx : Context) {session : Session} (written : Written effects counts ended)
    (settled : Settled effects) (short : session.len < CYCLE_RUNAWAY_FUSE)
    (during : During ctx.state.tick.toNat counts ended session.len) :
    Journal (ctx.loopTop (some session)).1 (effects ++ (ctx.loopTop (some session)).2) counts ended := by
  unfold Context.loopTop
  split
  · exact written.one rfl rfl (sessionless rfl) (.inl settled) fun _ _ => .inr during.open_
  · rename_i impossible
    cases impossible
  · rename_i carried
    cases carried
    split
    · exact written.one rfl rfl (sessionless rfl) (.inl settled) fun _ _ => .inr during.open_
    · refine written.one rfl rfl ?_ (.inl settled) fun _ _ => ⟨short, during⟩
      intro length same
      cases same
      exact Nat.le_of_lt short

/-- A continue-as-new goes on where the run stood. -/
theorem continueAsNew_journal {ctx : Context} {input : AgentInput} {carryover : Carryover}
    (written : Written effects counts ended) (settled : Settled effects) (carried : input.carryover = some carryover)
    (short : ∀ session, carryover.inFlight = some session → session.len < CYCLE_RUNAWAY_FUSE)
    (between : carryover.inFlight = none → ended = carryover.tick.toNat ∧ counts.length = carryover.tick.toNat)
    (during : ∀ session, carryover.inFlight = some session → During carryover.tick.toNat counts ended session.len) :
    Journal (ctx.continueAsNew input).1 (effects ++ (ctx.continueAsNew input).2) counts ended := by
  obtain ⟨start, tick, -, -, begun⟩ := begin_carried ctx.workflowId carried
  have quiet : ∀ effect ∈ [Effect.continueAsNew input], unrecorded effect = true := by
    intro effect member
    cases List.mem_singleton.mp member
    rfl
  have handed : Written (effects ++ [.continueAsNew input]) counts ended := by
    refine written.quiet quiet ?_ ?_ (.inl settled)
    all_goals
      intro effect member
      cases List.mem_singleton.mp member
    · nofun
    · intro length same
      simp only [sessionLength, carried, Option.bind_some, Option.map_eq_some_iff] at same
      obtain ⟨session, inside, rfl⟩ := same
      exact Nat.le_of_lt (short session inside)
  unfold Context.continueAsNew
  rw [begun]
  change Journal (start.loopTop carryover.inFlight).1 (effects ++ .continueAsNew input :: (start.loopTop _).2) counts ended
  rw [List.append_cons]
  cases inside : carryover.inFlight with
  | none =>
    obtain ⟨uncommitted, rounds⟩ := between inside
    rw [← tick] at uncommitted rounds
    exact loopTop_between start handed (settled_snoc rfl) uncommitted rounds
  | some session =>
    have open_ := during session inside
    rw [← tick] at open_
    exact loopTop_resumed start handed (settled_snoc rfl) (short session inside) open_

/-- The end of a cycle. -/
theorem commitTick_journal {ctx : Context} {steps : Nat} (written : Written effects counts ended) {mark : Effect}
    (last : effects.getLast? = some mark) (ends : closesCycle mark = true)
    (during : During ctx.state.tick.toNat counts ended steps) :
    Journal ctx.commitTick.1 (effects ++ ctx.commitTick.2) counts (ended + 1) := by
  have rounds : counts.length = ctx.state.tick.toNat + 1 := by rw [← during.open_, during.uncommitted]
  exact ⟨written.commit last ends during.uncommitted rounds, ⟨congrArg (· + 1) during.uncommitted, rounds⟩,
    fun _ => settled_snoc rfl⟩

theorem leaveGate_journal (journal : Journal run effects counts ended) {wakeAfter : Duration} {armed : Bool}
    (waits : run.await = .waitForTick wakeAfter armed) :
    ∃ more, Journal run.leaveGate.1 (effects ++ run.leaveGate.2) more ended := by
  have stands := journal.stands
  have settled := journal.settled fun ⟨_, _, _, _, logs, _⟩ => by simp [waits] at logs
  rw [waits] at stands
  obtain ⟨uncommitted, rounds⟩ := stands
  let drained := Effect.drained (drainBuckets { run.state with parked := false }).1
  have taken : Written (effects ++ [drained]) counts ended := by
    refine journal.quiet ?_ ?_ ?_ (.inl settled)
    all_goals
      intro effect member
      cases List.mem_singleton.mp member
    · rfl
    · nofun
    · nofun
  unfold Context.leaveGate
  dsimp only
  split
  · refine ⟨counts, ?_⟩
    rw [emit, List.append_cons]
    exact taken.one rfl rfl (sessionless rfl) (.inl (settled_snoc rfl)) fun _ _ => .inl (uncommitted.trans rounds.symm)
  · refine ⟨counts ++ [0], ?_⟩
    rw [emit, List.append_cons]
    exact ⟨taken.seed (settled_snoc rfl), ⟨uncommitted, counts, rfl, rounds⟩, fun _ => settled_snoc rfl⟩

/-- An observation is pushed: the cycle goes on, is handed over, or comes to its end. -/
theorem afterExecute_journal (journal : Journal run effects counts ended) {ctx : Context} {session : Session}
    {step : UInt64} {action : Decision} {executing : Executing} (observation : Observation) (suggested : Bool)
    (same : ctx.state.tick = run.state.tick) (waits : run.await = .executeAction session step action executing) :
    ∃ after, Journal (ctx.afterExecute session step action observation suggested).1
      (effects ++ (ctx.afterExecute session step action observation suggested).2) counts after := by
  have stands := journal.stands
  have settled : Settled effects := by
    refine journal.settled ?_
    rintro ⟨_, _, _, _, logs, -⟩
    simp [waits] at logs
  rw [waits, ← same] at stands
  obtain ⟨short, during, -, -⟩ := stands
  have pushed : (session.push action observation).len = session.len + 1 := session.len_push action observation
  rw [← pushed] at during
  unfold Context.afterExecute
  simp only
  split
  · refine ⟨ended + 1, ?_⟩
    rw [emit, List.append_cons]
    refine commitTick_journal (journal.mark settled (.inr ⟨_, rfl, ?_⟩)) List.getLast?_concat rfl during
    omega
  · rename_i below
    have shorter : (session.push action observation).len < CYCLE_RUNAWAY_FUSE := Nat.lt_of_not_le below
    split
    · split
      · refine ⟨ended + 1, ?_⟩
        rw [emit, List.append_cons]
        exact commitTick_journal (journal.mark settled (.inl ⟨_, rfl⟩)) List.getLast?_concat rfl during
      · refine ⟨ended, continueAsNew_journal journal.toWritten settled rfl ?_ (by rintro ⟨⟩) ?_⟩
        · intro carried inside
          cases inside
          exact shorter
        · intro carried inside
          cases inside
          exact during
    · refine ⟨ended, journal.one rfl rfl ?_ (.inl settled) fun _ _ => ⟨shorter, during⟩⟩
      intro length same
      cases same
      exact Nat.le_of_lt shorter

/-- A decision that is logged is executed, or ends the cycle. -/
theorem afterLog_journal (journal : Journal run effects counts ended) {session : Session} {step : UInt64}
    {action : Decision} (waits : run.await = .logDecision session step action) :
    ∃ after, Journal (run.afterLog session step action).1 (effects ++ (run.afterLog session step action).2) counts
      after := by
  have stands := journal.stands
  rw [waits] at stands
  obtain ⟨short, during, last, fsHandle, tick, marked⟩ := stands
  unfold Context.afterLog
  split
  · rename_i nextAfter idle
    refine ⟨ended + 1, commitTick_journal journal.toWritten marked ?_ during⟩
    simp [closesCycle, idle]
  · rename_i continues
    have settled := journal.settled fun ⟨_, _, _, nextAfter, logs, idle⟩ => by
      rw [waits] at logs
      cases logs
      rw [continues] at idle
      cases idle
    split
    · rename_i executing more asked
      have asks := executeAction_asks asked
      refine ⟨ended, journal.goesOn asks.unrecorded ?_ asks.bounded (.inl settled) ?_⟩
      · exact fun command member _ => ⟨_, _, last, asks.issues command member⟩
      · intro all same
        exact ⟨short, during, by rw [same]; exact last, asks.carries⟩
    · rename_i unasked
      cases action with
      | idle nextAfter => cases continues
      | _ => cases unasked

/-- A committed cycle is over: the tick goes up, and never past its bound. -/
theorem cycleBoundary_journal (valid : Valid run) (journal : Journal run effects counts ended) (suggested : Bool)
    (waits : run.await = .commitTick) :
    Journal (run.cycleBoundary suggested).1 (effects ++ (run.cycleBoundary suggested).2) counts ended := by
  have stands := journal.stands
  have settled := journal.settled fun ⟨_, _, _, _, logs, _⟩ => by simp [waits] at logs
  rw [waits] at stands
  have bumped : (saturatingAdd run.state.tick 1).toNat = run.state.tick.toNat + 1 := by
    have uncapped := valid.uncapped (.inl (by rw [waits]; rfl))
    unfold stepCapRetireReason at uncapped
    have below : ¬ run.input.mandate.stepCap.getD INTERIM_STEP_CAP ≤ run.state.tick := by
      intro reached
      simp [reached] at uncapped
    rw [UInt64.le_iff_toNat_le] at below
    have bound := toNat_le_u64Max (run.input.mandate.stepCap.getD INTERIM_STEP_CAP)
    rw [toNat_saturatingAdd]
    change min (run.state.tick.toNat + 1) u64Max = _
    omega
  obtain ⟨uncommitted, rounds⟩ : ended = run.state.tick.toNat + 1 ∧ counts.length = run.state.tick.toNat + 1 := stands
  rw [← bumped] at uncommitted rounds
  unfold Context.cycleBoundary
  dsimp only
  split
  · exact continueAsNew_journal journal.toWritten settled rfl nofun (fun _ => ⟨uncommitted, rounds⟩) nofun
  · exact loopTop_between _ journal.toWritten settled uncommitted rounds

theorem resume_journal (valid : Valid run) (journal : Journal run effects counts ended) {await : Await} {reply : Reply}
    {suggested : Bool} {result : Run × List Effect} (waits : run.await = await)
    (resumed : run.resume suggested await reply = some result) :
    ∃ more after, Journal result.1 (effects ++ result.2) more after := by
  have stands := journal.stands
  have settled (unlogged : ∀ session step action, await ≠ .logDecision session step action) : Settled effects := by
    refine journal.settled ?_
    rintro ⟨session, step, action, _, logs, -⟩
    exact unlogged session step action (waits.symm.trans logs)
  rw [waits] at stands
  have closes : ∀ outcome : Outcome, Settled effects ∨ outcome = .failed →
      ended = counts.length ∨ ended + 1 = counts.length →
      ∃ more after, Journal (run.close outcome).1 (effects ++ (run.close outcome).2) more after := by
    intro outcome open_ counted
    exact ⟨counts, ended, journal.one rfl rfl (sessionless rfl) (open_.imp_right fun failed => by rw [failed]) fun _ _ => counted⟩
  unfold Context.resume at resumed
  split at resumed
  case h_1 seed =>
    cases resumed
    have settled := settled (by simp)
    refine ⟨counts, ended, journal.one rfl rfl ?_ (.inl settled) fun _ _ => ⟨by simp [CYCLE_RUNAWAY_FUSE], stands⟩⟩
    intro length same
    cases same
    exact Nat.zero_le _
  case h_2 session step action =>
    cases resumed
    obtain ⟨short, uncommitted, earlier, rfl, rounds⟩ := stands
    have settled := settled (by simp)
    have indexed : step = .ofNat session.len := by
      have indexed := valid.indexed
      rw [waits] at indexed
      exact indexed
    have exactly : step.toNat = session.len := by
      rw [indexed]
      unfold CYCLE_RUNAWAY_FUSE at short
      exact UInt64.toNat_ofNat_of_lt' (by unfold UInt64.size; omega)
    refine ⟨_, ended, journal.log settled rounds exactly, ?_, ?_⟩
    · refine ⟨short, ⟨uncommitted, earlier, rfl, rounds⟩, ?_, _, _, List.getLast?_concat⟩
      rw [logged_append, List.getLast?_append, ← exactly]
      rfl
    · intro goesOn
      refine settled_snoc ?_
      cases idle : action.idleAfter with
      | none => simp [closesCycle, idle]
      | some nextAfter => exact (goesOn ⟨_, _, _, nextAfter, rfl, idle⟩).elim
  case h_3 session step action =>
    cases resumed
    obtain ⟨after, journal⟩ := afterLog_journal journal waits
    exact ⟨counts, after, journal⟩
  case h_4 session step action executing =>
    have settled := settled (by simp)
    obtain ⟨short, during, last, carries⟩ := stands
    obtain ⟨answer, answered, shape⟩ := Option.map_eq_some_iff.mp resumed
    subst shape
    cases answer with
    | asks childHandles request =>
      have asks := answer_asks carries answered
      refine ⟨counts, ended, journal.goesOn asks.unrecorded ?_ asks.bounded (.inl settled) ?_⟩
      · exact fun command member _ => ⟨_, _, last, asks.issues command member⟩
      · intro all same
        exact ⟨short, during, by rw [same]; exact last, asks.carries⟩
    | observes childHandles observation =>
      obtain ⟨after, journal⟩ := @afterExecute_journal run effects counts ended journal (run.withChildren childHandles)
        session step action executing observation suggested rfl waits
      exact ⟨counts, after, journal⟩
    | fails => exact closes .failed (.inr rfl) (.inr during.open_)
  case h_5 =>
    cases resumed
    exact ⟨counts, ended, cycleBoundary_journal valid journal suggested waits⟩
  case h_6 reason =>
    cases resumed
    have settled := settled (by simp)
    unfold Context.retired
    split
    · exact ⟨counts, ended, journal.one rfl rfl (sessionless rfl) (.inl settled) fun _ _ => stands⟩
    · exact closes _ (.inl settled) stands
  case h_7 reason =>
    cases resumed
    exact closes _ (.inl (settled (by simp))) stands
  case h_13 => cases resumed
  all_goals
    cases resumed
    refine closes _ (.inr rfl) ?_
    first
      | exact stands
      | exact .inr stands.open_
      | exact .inr stands.2.open_
      | exact .inr stands.2.1.open_
      | exact .inl (stands.1.trans stands.2.symm)

theorem step_journal (valid : Valid run) (journal : Journal run effects counts ended) {event : Event}
    (stepped : workflow.step run event = some (next, more)) :
    ∃ counts ended, Journal next (effects ++ more) counts ended := by
  change run.step event = _ at stepped
  unfold Run.step at stepped
  split at stepped
  case h_1 signal =>
    split at stepped
    · cases stepped
    · cases stepped
      have stands := journal.stands
      rw [← (receive_fixed run.state signal).2.2.1] at stands
      rw [List.append_nil]
      exact ⟨counts, ended, journal.toWritten, stands, journal.settled⟩
  case h_2 =>
    split at stepped
    · rename_i waits
      split at stepped
      · obtain ⟨more, left⟩ := leaveGate_journal journal waits
        rw [Option.some.inj stepped] at left
        exact ⟨more, ended, left⟩
      · cases stepped
    · cases stepped
  case h_3 =>
    split at stepped
    · rename_i waits
      obtain ⟨more, left⟩ := leaveGate_journal journal waits
      rw [Option.some.inj stepped] at left
      exact ⟨more, ended, left⟩
    · cases stepped
  case h_4 => exact resume_journal valid journal rfl stepped

end Steps

/-- A workflow's life, from its first run on, has a journal. -/
theorem lifetime_journal {workflowId : String} {input : AgentInput} {events : List Event} {run : Run}
    {effects : List Effect} (first : input.carryover = none)
    (lived : lifetime workflowId input events = some (run, effects)) :
    ∃ counts ended, Journal run effects counts ended := by
  have both : Valid run ∧ ∃ counts ended, Journal run effects counts ended := by
    refine lifetime_invariant (fun _ run effects => Valid run ∧ ∃ counts ended, Journal run effects counts ended) ?_ ?_ lived
    · refine ⟨begin_valid workflowId input, [], 0, ?_⟩
      obtain ⟨ctx, tick, begun⟩ : ∃ ctx : Context, ctx.state.tick = 0 ∧ begin workflowId input = ctx.loopTop none := by
        unfold begin
        rw [first]
        exact ⟨_, rfl, rfl⟩
      rw [begun]
      exact loopTop_between ctx .nil settled_nil (by rw [tick]; rfl) (by rw [tick]; rfl)
    · rintro _ before _ _ _ _ ⟨valid, counts, ended, journal⟩ stepped
      exact ⟨valid.step stepped, step_journal valid journal stepped⟩
  exact both.2

/-- The session of the cycle in progress. -/
def openSession : Await → Option Session
  | .decideStep session _ | .logDecision session _ _ | .executeAction session _ _ _ => some session
  | _ => none

structure Orderly (run : Run) (effects : List Effect) : Prop where
  increasing : ((logged effects).map (·.1)).Pairwise (Prod.Lex (· < ·) (· < ·))
  /-- The steps of one cycle are counted without gaps. -/
  counted : ∀ tick, ∃ steps, (((logged effects).map (·.1)).filter (·.1 = tick)).map (·.2) = List.range steps
  ordered : Ordered effects
  /-- Every cycle begun has been committed once, but for the last, which may be in progress or suspended. -/
  committed : ∃ ended, commits effects = List.range ended ∧ (ended = seeds effects ∨ ended + 1 = seeds effects)
  concluded : Concluded effects
  bounded : Bounded effects
  short : ∀ session, openSession run.await = some session → session.len ≤ CYCLE_RUNAWAY_FUSE

theorem Journal.orderly {run : Run} {effects : List Effect} {counts : List Nat} {ended : Nat}
    (journal : Journal run effects counts ended) : Orderly run effects := by
  have stands := journal.stands
  refine ⟨?_, ?_, journal.ordered, ⟨ended, journal.committed, ?_⟩, journal.concluded, journal.bounded, ?_⟩
  · rw [journal.keys]
    exact pairwise_roundKeys counts
  · intro tick
    rw [journal.keys]
    exact ⟨_, places_roundKeys counts tick⟩
  · rw [journal.begun]
    cases waits : run.await with
    | waitForTick wakeAfter armed =>
      rw [waits] at stands
      exact .inl (stands.1.trans stands.2.symm)
    | buildSeed =>
      rw [waits] at stands
      exact .inr stands.open_
    | decideStep session step =>
      rw [waits] at stands
      exact .inr stands.2.open_
    | logDecision session step action =>
      rw [waits] at stands
      exact .inr stands.2.1.open_
    | executeAction session step action executing =>
      rw [waits] at stands
      exact .inr stands.2.1.open_
    | commitTick =>
      rw [waits] at stands
      exact .inl (stands.1.trans stands.2.symm)
    | _ =>
      rw [waits] at stands
      exact stands
  · intro session open_
    cases waits : run.await <;> rw [waits] at open_ stands <;> cases open_ <;> exact Nat.le_of_lt stands.1

/-- No two decisions of an agent's life share a log entry, and no two cycles a commit. -/
theorem journal_orderly (workflowId : String) (input : AgentInput) (events : List Event) (run : Run)
    (effects : List Effect) (first : input.carryover = none)
    (lived : lifetime workflowId input events = some (run, effects)) : Orderly run effects := by
  obtain ⟨counts, ended, journal⟩ := lifetime_journal first lived
  exact journal.orderly

/-- Two cycles, the first suspended by a continue-as-new after its first decision. -/
theorem journal_orderly_suspended :
    let input := AgentInput.newForTest ⟨⟨0⟩⟩ ⟨⟨1⟩⟩ "root"
    let events : List Event := [.timerFired, .reply (.seedBuilt ⟨input.mandate, [], {}⟩) false,
      .reply (.decided (.list "notes")) false, .reply .logged false, .reply (.fsRead (.success "")) true,
      .reply (.decided (.idle ⟨0⟩)) false, .reply .logged false, .reply .committed true, .timerFired]
    ∃ run effects, lifetime "root" input events = some (run, effects) ∧
      (logged effects).map (·.1) = [(0, 0), (0, 1)] ∧ commits effects = [0] ∧ Orderly run effects := by
  intro input events
  have keyed : (lifetime "root" input events).any (fun result =>
      (logged result.2).map (·.1) == [(0, 0), (0, 1)] && commits result.2 == [0]) = true := by decide +kernel
  obtain ⟨⟨run, effects⟩, lived, keys⟩ := (Option.any_eq_true _ _).mp keyed
  simp only [Bool.and_eq_true, beq_iff_eq] at keys
  exact ⟨run, effects, lived, keys.1, keys.2, journal_orderly "root" input events run effects rfl lived⟩

end Coral.Temporal.Proofs

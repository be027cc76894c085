import Coral.Library.Sorted
import Coral.Node.Agent
import Coral.Proofs.SignalConservation
import Coral.Temporal.Activities

/-! The order in which an agent sees what has arrived since its last drain, on both hosts. In
process one queue is sorted at the drain; the workflow has a bucket for each kind of signal. -/

namespace Coral.Temporal.Proofs
open Coral.Library

/-- The signal that brings a trigger to a workflow. -/
def asSignal : Trigger → Signal
  | .humanOverride op => .humanOverride op
  | trigger => .externalSignal trigger

/-- The signals among the events. -/
def signalsOf (events : List Event) : List Signal := events.filterMap fun
  | .signal signal => some signal
  | _ => none

/-- The triggers among the events of an in-process agent. -/
def arrivedOf (events : List AgentEvent) : List Trigger := events.filterMap fun
  | .signal trigger => some trigger
  | _ => none

/-- What a cycle is woken by: the arrivals, or the idle timer. -/
def wokenBy (arrivals : List Trigger) : List Trigger := if arrivals.isEmpty then [.scheduledWake] else arrivals

/-- The documented order: by class, and as they arrived within each class. -/
def ByClass (arrivals triggers : List Trigger) : Prop :=
  triggers.Pairwise (fun first second => first.classPriority ≤ second.classPriority) ∧
    ∀ priority, triggers.filter (fun trigger => trigger.classPriority = priority) =
      (wokenBy arrivals).filter fun trigger => trigger.classPriority = priority

/-- No human override arrives together with anything else, and no external event after a
child's report. -/
def Unmixed (arrivals : List Trigger) : Prop :=
  ((∀ trigger ∈ arrivals, trigger.classPriority = 0) ∨ ∀ trigger ∈ arrivals, trigger.classPriority ≠ 0) ∧
    arrivals.Pairwise fun first second => ¬ (first.classPriority = 2 ∧ second.classPriority = 1)

theorem drainOrdered_byClass (arrivals : List Trigger) : ByClass arrivals (drainOrdered (wokenBy arrivals)) :=
  ⟨pairwise_mergeSort_rank Trigger.classPriority _, filter_mergeSort_rank Trigger.classPriority _⟩

/-- What the workflow's buckets make of the arrivals. -/
def bucketed (arrivals : List Trigger) : List Trigger :=
  (wokenBy arrivals).filter (fun trigger => trigger.classPriority ≠ 0) ++
    (wokenBy arrivals).filter fun trigger => trigger.classPriority = 0

theorem bucketed_unmixed {arrivals : List Trigger}
    (apart : (∀ trigger ∈ arrivals, trigger.classPriority = 0) ∨ ∀ trigger ∈ arrivals, trigger.classPriority ≠ 0) :
    bucketed arrivals = wokenBy arrivals := by
  have woken : (∀ trigger ∈ wokenBy arrivals, trigger.classPriority = 0) ∨
      ∀ trigger ∈ wokenBy arrivals, trigger.classPriority ≠ 0 := by
    unfold wokenBy
    split
    · exact .inr (by simp [Trigger.classPriority])
    · exact apart
  unfold bucketed
  rcases woken with human | other
  · rw [List.filter_eq_nil_iff.mpr (by simpa using human), List.filter_eq_self.mpr (by simpa using human), List.nil_append]
  · rw [List.filter_eq_self.mpr (by simpa using other), List.filter_eq_nil_iff.mpr (by simpa using other), List.append_nil]

/-- The buckets keep the documented order exactly for arrivals that are not mixed. -/
theorem bucketed_sorted_iff {arrivals : List Trigger} (arrived : ∀ trigger ∈ arrivals, trigger ≠ .scheduledWake) :
    bucketed arrivals = drainOrdered (wokenBy arrivals) ↔ Unmixed arrivals := by
  have below : ∀ trigger ∈ arrivals, trigger.classPriority ≤ 2 := by
    intro trigger member
    cases trigger with
    | scheduledWake => exact (arrived _ member rfl).elim
    | _ => simp [Trigger.classPriority]
  constructor
  · intro same
    have sorted := pairwise_mergeSort_rank Trigger.classPriority (wokenBy arrivals)
    rw [show (wokenBy arrivals).mergeSort _ = bucketed arrivals from same.symm] at sorted
    have apart : (∀ trigger ∈ arrivals, trigger.classPriority = 0) ∨ ∀ trigger ∈ arrivals, trigger.classPriority ≠ 0 := by
      by_contra mixed
      simp only [not_or, not_forall, ne_eq, Decidable.not_not] at mixed
      obtain ⟨⟨other, here, unequal⟩, human, there, equal⟩ := mixed
      have woken : wokenBy arrivals = arrivals := by
        unfold wokenBy
        rw [if_neg]
        rw [List.isEmpty_iff]
        rintro rfl
        cases here
      unfold bucketed at sorted
      rw [woken] at sorted
      have order := (List.pairwise_append.mp sorted).2.2 other (List.mem_filter.mpr ⟨here, by simpa using unequal⟩) human
        (List.mem_filter.mpr ⟨there, by simpa using equal⟩)
      omega
    refine ⟨apart, ?_⟩
    rw [bucketed_unmixed apart] at sorted
    cases arrivals with
    | nil => exact .nil
    | cons first arrivals => exact sorted.imp fun order reversed => by omega
  · rintro ⟨apart, ordered⟩
    rw [bucketed_unmixed apart]
    refine (mergeSort_rank_sorted Trigger.classPriority ?_).symm
    cases arrivals with
    | nil => simp [wokenBy]
    | cons first arrivals =>
      change (first :: arrivals).Pairwise _
      refine List.Pairwise.imp_of_mem ?_ ordered
      intro one other here there unreversed
      have small := below one here
      have low := below other there
      rcases apart with human | others
      · rw [human one here]
        exact Nat.zero_le _
      · have positive := others one here
        have above := others other there
        omega

theorem receivedMail_signals (events : List Event) :
    receivedMail events = receivedMail ((signalsOf events).map .signal) := by
  induction events with
  | nil => rfl
  | cons event events ih =>
    rw [← List.singleton_append, receivedMail_append, ih]
    cases event with
    | signal signal => exact (receivedMail_append [.signal signal] ((signalsOf events).map .signal)).symm
    | _ => rfl

def humanOpOf : Trigger → Option HumanOp
  | .humanOverride op => some op
  | _ => none

theorem receivedMail_arrivals {arrivals : List Trigger} :
    receivedMail ((arrivals.map asSignal).map .signal) =
      ⟨arrivals.filter fun trigger => trigger.classPriority ≠ 0, arrivals.filterMap humanOpOf, []⟩ := by
  induction arrivals with
  | nil => rfl
  | cons trigger arrivals ih =>
    rw [List.map_cons, List.map_cons, ← List.singleton_append, receivedMail_append, ih]
    cases trigger <;>
      simp [receivedMail, Mail.concat, asSignal, humanOpOf, Trigger.classPriority, Mail.ext_iff, List.filterMap_cons]

theorem overrides_arrivals (arrivals : List Trigger) :
    (arrivals.filterMap humanOpOf).map .humanOverride = arrivals.filter fun trigger => trigger.classPriority = 0 := by
  induction arrivals with
  | nil => rfl
  | cons trigger arrivals ih => cases trigger <;> simpa [humanOpOf, Trigger.classPriority, List.filterMap_cons] using ih

theorem drainedMail_none {effects : List Effect} (undrained : ∀ buckets, Effect.drained buckets ∉ effects) :
    drainedMail effects = {} := by
  induction effects with
  | nil => rfl
  | cons effect effects ih =>
    rw [← List.singleton_append, drainedMail_append, ih fun buckets member => undrained buckets (List.mem_cons_of_mem _ member)]
    cases effect with
    | drained buckets => exact (undrained buckets List.mem_cons_self).elim
    | _ => rfl

/-- What the gate asks to be built, of the buckets as they are. -/
theorem leaveGate_asks {ctx : Context} {mandate : Mandate} {fsHandle : FsHandle} {triggers : List Trigger}
    {humanOps : List HumanOp} {mandatePatches : List MandatePatch}
    (asks : Effect.activity (.buildSeed mandate fsHandle triggers humanOps mandatePatches) ∈ ctx.leaveGate.2) :
    ctx.state.retirementRequest = none ∧ humanOps = ctx.state.pendingHumanOps ∧
      triggers = (synthesizeScheduledWake (drainBuckets ctx.state).1).triggers := by
  cases asked : ctx.state.retirementRequest with
  | some reason =>
    have left : ctx.leaveGate.2 = [.drained (drainBuckets ctx.state).1,
        .activity (.persistRetirement ctx.input.fsHandle reason)] := by
      unfold Context.leaveGate
      simp only [drainBuckets, asked]
      rfl
    rw [left] at asks
    simp at asks
  | none =>
    have kept : (synthesizeScheduledWake (drainBuckets ctx.state).1).humanOps = ctx.state.pendingHumanOps := by
      unfold synthesizeScheduledWake
      split <;> rfl
    have left : ∃ drained mandate fsHandle patches, ctx.leaveGate.2 = [.drained drained, .activity (.buildSeed mandate fsHandle
        (synthesizeScheduledWake (drainBuckets ctx.state).1).triggers ctx.state.pendingHumanOps patches)] := by
      rw [← kept]
      unfold Context.leaveGate
      simp only [drainBuckets, asked]
      exact ⟨_, _, _, _, rfl⟩
    obtain ⟨drained, mandate, fsHandle, patches, left⟩ := left
    rw [left] at asks
    simp only [List.mem_cons, List.not_mem_nil, or_false, reduceCtorEq, false_or, Effect.activity.injEq,
      Activity.buildSeed.injEq] at asks
    exact ⟨rfl, asks.2.2.2.1, asks.2.2.1⟩

/-- The seed that a workflow builds, from the signals since its last drain. -/
theorem workflow_triggers {run waiting next : Run} {since : List Event} {effects more : List Effect} {event : Event}
    {arrivals : List Trigger} (emptied : mailOf run.state = {}) (ran : workflow.run run since = some (waiting, effects))
    (undrained : ∀ buckets, Effect.drained buckets ∉ effects) (arrive : signalsOf since = arrivals.map asSignal)
    (stepped : workflow.step waiting event = some (next, more)) {mandate : Mandate} {fsHandle : FsHandle}
    {triggers : List Trigger} {humanOps : List HumanOp} {mandatePatches : List MandatePatch}
    (asks : Effect.activity (.buildSeed mandate fsHandle triggers humanOps mandatePatches) ∈ more) :
    seedTriggers triggers humanOps = bucketed arrivals := by
  have mail := run_mail ran
  rw [drainedMail_none undrained, emptied, Mail.empty_append, Mail.empty_append, receivedMail_signals, arrive,
    receivedMail_arrivals] at mail
  obtain ⟨inbox, overrides, patches⟩ := (Mail.ext_iff).mp mail
  obtain ⟨left, -⟩ := step_seeded stepped asks rfl
  rw [(Prod.mk.inj left).2] at asks
  obtain ⟨unasked, rfl, rfl⟩ := leaveGate_asks asks
  simp only [mailOf] at inbox overrides patches
  unfold seedTriggers bucketed
  cases arrivals with
  | nil =>
    simp only [List.filter_nil, List.filterMap_nil] at inbox overrides
    simp [synthesizeScheduledWake, drainBuckets, inbox, overrides, patches, unasked, wokenBy, Trigger.classPriority]
  | cons first arrivals =>
    have busy : (synthesizeScheduledWake (drainBuckets waiting.state).1).triggers = waiting.state.pendingTriggers := by
      unfold synthesizeScheduledWake
      rw [if_neg]
      · rfl
      · simp only [drainBuckets, inbox, overrides, Bool.and_eq_true, List.isEmpty_iff, not_and]
        rintro ⟨⟨empty, others⟩, -⟩
        have all : ∀ trigger ∈ first :: arrivals, trigger.classPriority = 0 := by simpa using empty
        have human : humanOpOf first ≠ none := by
          have zero := all first List.mem_cons_self
          cases first <;> simp_all [Trigger.classPriority, humanOpOf]
        exact (human (List.filterMap_eq_nil_iff.mp others first List.mem_cons_self)).elim
    rw [busy, inbox, overrides, overrides_arrivals]
    rfl

section InProcess

variable {llm : LlmDecide} {agent : Agent}

/-- The queue is left as it is. -/
def Queued (agent : Agent) (result : Agent × List AgentEffect) : Prop :=
  result.1.triggers = agent.triggers ∧ ∀ triggers, AgentEffect.buildSeed triggers ∉ result.2

theorem loopTop_queue (agent : Agent) : Queued agent agent.loopTop := by
  unfold Agent.loopTop
  dsimp only
  split <;> exact ⟨rfl, by simp⟩

theorem endUnhealthy_queue (agent : Agent) (incident : HealthIncident) (written : Bool) :
    Queued agent (agent.endUnhealthy incident written) := by
  unfold Agent.endUnhealthy
  split
  · exact loopTop_queue { agent with health := _ }
  · exact ⟨rfl, by simp [Agent.close]⟩

theorem decideFailed_queue (agent : Agent) (error : String) (clock : Clock) (written : Bool) :
    Queued agent (agent.decideFailed error clock written) := endUnhealthy_queue (agent.tried (clock 0) error) _ written

theorem decided_queue (agent : Agent) (session : Session) (action : Decision) (clock : Clock) (written : Bool) :
    Queued agent (agent.decided session action clock written) := by
  unfold Agent.decided
  split
  · split
    · exact loopTop_queue { agent with health := _, nextAfter := _ }
    · exact ⟨rfl, by simp [Agent.close]⟩
  · split <;> exact ⟨rfl, by simp [Agent.close]⟩

theorem recordToolFailures_queue (clock : Clock) (failures : List ToolFailure) (reading : Nat)
    (exhausted : Option FailureKind) (agent : Agent) :
    (Agent.recordToolFailures clock failures reading exhausted agent).2.triggers = agent.triggers := by
  induction failures generalizing reading exhausted agent with
  | nil => rfl
  | cons failure failures ih =>
    unfold Agent.recordToolFailures
    dsimp only
    split <;> exact ih _ _ _

theorem recordCycleFailure_queue (agent : Agent) (failure : StepFailure) (clock : Clock) :
    (agent.recordCycleFailure failure clock).2.triggers = agent.triggers := by
  unfold Agent.recordCycleFailure
  split
  · dsimp only
    split <;> rfl
  · rename_i failures
    have queue := recordToolFailures_queue clock failures 0 none agent
    split <;> rename_i failed <;> rw [failed] at queue <;> exact queue

theorem executed_queue (agent : Agent) (session : Session) (action : Decision) (outcome : StepOutcome) (clock : Clock)
    (written : Bool) : Queued agent (agent.executed session action outcome clock written) := by
  unfold Agent.executed
  split
  rename_i incident later recorded
  have same : later.triggers = agent.triggers := by
    split at recorded
    · rename_i failure failed
      have queue := recordCycleFailure_queue agent failure clock
      rw [recorded] at queue
      exact queue
    · cases recorded
      rfl
  split
  · rename_i incident
    exact (endUnhealthy_queue later incident written).imp_left fun queue => queue.trans same
  · dsimp only
    split
    · exact (loopTop_queue later).imp_left fun queue => queue.trans same
    · exact ⟨same, by simp⟩

/-- What a step of the agent does with its queue: it drains all of it at the wake boundary,
with the idle timer's trigger when it is empty, and else only adds what arrives. -/
theorem agent_step_queue {next : Agent} {event : AgentEvent} {effects : List AgentEffect}
    (stepped : (inProcess llm).step agent event = some (next, effects)) :
    effects = [.buildSeed (drainOrdered (wokenBy agent.triggers))] ∨
      next.triggers = agent.triggers ++ arrivedOf [event] ∧ ∀ triggers, AgentEffect.buildSeed triggers ∉ effects := by
  have kept : ∀ result : Agent × List AgentEffect, Queued agent result → result = (next, effects) → arrivedOf [event] = [] →
      next.triggers = agent.triggers ++ arrivedOf [event] ∧ ∀ triggers, AgentEffect.buildSeed triggers ∉ effects := by
    rintro result ⟨queue, undrained⟩ rfl quiet
    rw [quiet, List.append_nil]
    exact ⟨queue, undrained⟩
  change agent.step llm event = _ at stepped
  unfold Agent.step at stepped
  split at stepped
  case h_1 => cases stepped
  case h_2 =>
    cases stepped
    exact .inr ⟨rfl, by simp⟩
  case h_3 =>
    split at stepped
    · cases stepped
    · rename_i busy
      cases stepped
      refine .inl ?_
      unfold wokenBy
      rw [if_neg busy]
  case h_4 =>
    split at stepped
    · rename_i idle
      cases stepped
      refine .inl ?_
      unfold wokenBy
      rw [if_pos idle]
    · cases stepped
  case h_7 =>
    split at stepped
    · exact .inr (kept _ (decideFailed_queue _ _ _ _) (Option.some.inj stepped) rfl)
    · exact .inr (kept _ (decided_queue _ _ _ _ _) (Option.some.inj stepped) rfl)
  case h_8 => exact .inr (kept _ (executed_queue _ _ _ _ _ _) (Option.some.inj stepped) rfl)
  all_goals
    first
      | (cases stepped; done)
      | exact .inr (kept _ ⟨rfl, by simp [Agent.close]⟩ (Option.some.inj stepped) rfl)

theorem agent_run_queue {final : Agent} {events : List AgentEvent} {effects : List AgentEffect}
    (ran : (inProcess llm).run agent events = some (final, effects))
    (undrained : ∀ triggers, AgentEffect.buildSeed triggers ∉ effects) :
    final.triggers = agent.triggers ++ arrivedOf events := by
  refine (inProcess llm).history_invariant (fun events final effects =>
    (∀ triggers, AgentEffect.buildSeed triggers ∉ effects) → final.triggers = agent.triggers ++ arrivedOf events)
    (fun _ => (List.append_nil _).symm) ?_ ran undrained
  intro events middle effects event next more queued stepped undrained
  rcases agent_step_queue stepped with drained | ⟨queue, -⟩
  · exact (undrained _ (List.mem_append_right effects (drained ▸ List.mem_singleton_self _))).elim
  · rw [queue, queued fun triggers member => undrained triggers (List.mem_append_left more member), List.append_assoc]
    exact congrArg (agent.triggers ++ ·) List.filterMap_append.symm

/-- The seed that the in-process host builds, from the triggers since its last drain. -/
theorem agent_triggers {waiting next : Agent} {since : List AgentEvent} {effects more : List AgentEffect}
    {event : AgentEvent} {triggers : List Trigger} (emptied : agent.triggers = [])
    (ran : (inProcess llm).run agent since = some (waiting, effects))
    (undrained : ∀ triggers, AgentEffect.buildSeed triggers ∉ effects)
    (stepped : (inProcess llm).step waiting event = some (next, more)) (asks : AgentEffect.buildSeed triggers ∈ more) :
    triggers = drainOrdered (wokenBy (arrivedOf since)) := by
  have queue := agent_run_queue ran undrained
  rw [emptied, List.nil_append] at queue
  rw [← queue]
  rcases agent_step_queue stepped with drained | ⟨-, quiet⟩
  · rw [drained] at asks
    cases List.mem_singleton.mp asks
    rfl
  · exact (quiet triggers asks).elim

end InProcess

/-- The triggers of a seed that a workflow builds, from the signals since its last drain. -/
inductive WorkflowSeeds (arrivals : List Trigger) : List Trigger → Prop where
  | drains {run waiting next : Run} {since : List Event} {effects more : List Effect} {event : Event} {mandate : Mandate}
      {fsHandle : FsHandle} {triggers : List Trigger} {humanOps : List HumanOp} {mandatePatches : List MandatePatch}
      (emptied : mailOf run.state = {}) (ran : workflow.run run since = some (waiting, effects))
      (undrained : ∀ buckets, Effect.drained buckets ∉ effects) (arrive : signalsOf since = arrivals.map asSignal)
      (stepped : workflow.step waiting event = some (next, more))
      (asks : Effect.activity (.buildSeed mandate fsHandle triggers humanOps mandatePatches) ∈ more) :
      WorkflowSeeds arrivals (seedTriggers triggers humanOps)

/-- The triggers of a seed that the in-process host builds, from those since its last drain. -/
inductive AgentSeeds (llm : LlmDecide) (arrivals : List Trigger) : List Trigger → Prop where
  | drains {agent waiting next : Agent} {since : List AgentEvent} {effects more : List AgentEffect} {event : AgentEvent}
      {triggers : List Trigger} (emptied : agent.triggers = [])
      (ran : (inProcess llm).run agent since = some (waiting, effects))
      (undrained : ∀ triggers, AgentEffect.buildSeed triggers ∉ effects) (arrive : arrivedOf since = arrivals)
      (stepped : (inProcess llm).step waiting event = some (next, more)) (asks : AgentEffect.buildSeed triggers ∈ more) :
      AgentSeeds llm arrivals triggers

/-- The two hosts hand on the same triggers, in the documented order, exactly when no human
override comes with other signals and no external event after a child's report. -/
theorem hosts_order_alike_iff (llm : LlmDecide) (arrivals triggers others : List Trigger)
    (arrived : ∀ trigger ∈ arrivals, trigger ≠ .scheduledWake) (onWorkflow : WorkflowSeeds arrivals triggers)
    (onAgent : AgentSeeds llm arrivals others) :
    triggers = others ∧ ByClass arrivals triggers ↔ Unmixed arrivals := by
  have inProcessOrder : others = drainOrdered (wokenBy arrivals) := by
    cases onAgent with
    | drains emptied ran undrained arrive stepped asks =>
      rw [← arrive]
      exact agent_triggers emptied ran undrained stepped asks
  have workflowOrder : triggers = bucketed arrivals := by
    cases onWorkflow with
    | drains emptied ran undrained arrive stepped asks =>
      exact workflow_triggers emptied ran undrained arrive stepped asks
  rw [inProcessOrder, workflowOrder, ← bucketed_sorted_iff arrived]
  refine ⟨And.left, fun same => ⟨same, ?_⟩⟩
  rw [same]
  exact drainOrdered_byClass arrivals

/-- A model that is not asked. -/
def silentLlm : LlmDecide := ⟨.single, fun _ => [], fun _ => .error "unasked"⟩

def webhook : Trigger := .external "webhook" .null

def override : Trigger := .humanOverride ⟨.null⟩

def childReport : Trigger := .childRetired ⟨"w", ⟨⟨2⟩⟩⟩ "child" "done"

/-- The human override comes last in the workflow's seed, and first in the documented order. -/
theorem override_comes_last :
    WorkflowSeeds [webhook, override] [webhook, override] ∧
      AgentSeeds silentLlm [webhook, override] (drainOrdered [webhook, override]) ∧
      ByClass [webhook, override] (drainOrdered [webhook, override]) ∧ ¬ ByClass [webhook, override] [webhook, override] := by
  refine ⟨?_, ?_, drainOrdered_byClass [webhook, override], fun ordered => ?_⟩
  · exact @WorkflowSeeds.drains _ (begin "root" (.newForTest ⟨⟨0⟩⟩ ⟨⟨1⟩⟩ "root")).1 _ _
      [.signal (asSignal webhook), .signal (asSignal override)] _ _ .woken _ _ _ _ _ rfl rfl (by simp) rfl rfl
      (List.mem_cons_of_mem _ List.mem_cons_self)
  · exact @AgentSeeds.drains silentLlm _ (Agent.start (.new "" ⟨0⟩ none) ⟨{}, .healthy ⟨0⟩, 0, 0⟩ []).1 _ _
      [.signal webhook, .signal override] _ _ .nonempty _ rfl rfl (by simp) rfl rfl List.mem_cons_self
  · exact absurd (List.rel_of_pairwise_cons ordered.1 List.mem_cons_self) (by decide)

/-- Together with a child's report, an external event that came before it. -/
theorem hosts_order_alike_iff_report : ∃ triggers others,
    WorkflowSeeds [webhook, childReport] triggers ∧ AgentSeeds silentLlm [webhook, childReport] others ∧
      (triggers = others ∧ ByClass [webhook, childReport] triggers ↔ Unmixed [webhook, childReport]) := by
  have onWorkflow : WorkflowSeeds [webhook, childReport] (seedTriggers [webhook, childReport] []) :=
    @WorkflowSeeds.drains _ (begin "root" (.newForTest ⟨⟨0⟩⟩ ⟨⟨1⟩⟩ "root")).1 _ _
      [.signal (asSignal webhook), .signal (asSignal childReport)] _ _ .woken _ _ _ _ _ rfl rfl (by simp) rfl rfl
      (List.mem_cons_of_mem _ List.mem_cons_self)
  have onAgent : AgentSeeds silentLlm [webhook, childReport] (drainOrdered [webhook, childReport]) :=
    @AgentSeeds.drains silentLlm _ (Agent.start (.new "" ⟨0⟩ none) ⟨{}, .healthy ⟨0⟩, 0, 0⟩ []).1 _ _
      [.signal webhook, .signal childReport] _ _ .nonempty _ rfl rfl (by simp) rfl rfl List.mem_cons_self
  exact ⟨_, _, onWorkflow, onAgent,
    hosts_order_alike_iff silentLlm _ _ _ (by decide) onWorkflow onAgent⟩

end Coral.Temporal.Proofs

import Coral.Proofs.SignalAccounting

/-! The outputs of its children that an agent is told of, from the child's `persist_output` to
the seed of a cycle of the parent's. -/

namespace Coral.Temporal.Proofs
open Coral.Library

/-- The triggers that the seeds are built from. -/
def seededBy (effects : List Effect) : List Trigger := effects.flatMap fun
  | .activity (.buildSeed _ _ triggers _ _) => triggers
  | _ => []

/-- The outputs that a workflow's `persist_output` has answered with. -/
def persistedBy (workflowId : String) (posted : List Posting) : List OutputId := posted.filterMap fun
  | .acted other (.reply (.outputPersisted (some outputId) _) _) _ => if other = workflowId then some outputId else none
  | _ => none

section Seeds

variable {run next : Run} {event : Event} {effects : List Effect}

theorem seededBy_append (first second : List Effect) : seededBy (first ++ second) = seededBy first ++ seededBy second :=
  List.flatMap_append

theorem seededBy_none (unseeded : ∀ effect ∈ effects, isSeed effect = false) : seededBy effects = [] := by
  refine List.flatMap_eq_nil_iff.mpr fun effect member => ?_
  have other := unseeded effect member
  split
  · cases other
  · rfl

theorem persistedBy_append (workflowId : String) (first second : List Posting) :
    persistedBy workflowId (first ++ second) = persistedBy workflowId first ++ persistedBy workflowId second :=
  List.filterMap_append

theorem count_wake (drained : DrainedBuckets) {trigger : Trigger} (other : trigger ≠ .scheduledWake) :
    (synthesizeScheduledWake drained).triggers.count trigger = drained.triggers.count trigger := by
  unfold synthesizeScheduledWake
  split
  · rw [List.count_append, List.count_singleton, if_neg, Nat.add_zero]
    simpa using other.symm
  · rfl

/-- A seed is built from what the same step drains. -/
theorem step_seeds (stepped : workflow.step run event = some (next, effects)) {trigger : Trigger}
    (other : trigger ≠ .scheduledWake) :
    (seededBy effects).count trigger ≤ (drainedMail effects).triggers.count trigger := by
  by_cases seeded : ∃ effect ∈ effects, isSeed effect = true
  · obtain ⟨effect, member, seed⟩ := seeded
    obtain ⟨left, -⟩ := step_seeded stepped member seed
    obtain rfl : effects = run.leaveGate.2 := congrArg Prod.snd left
    unfold Context.leaveGate
    dsimp only
    split
    · exact Nat.zero_le _
    · change ((synthesizeScheduledWake _).triggers ++ []).count trigger ≤ (_ ++ []).count trigger
      rw [List.append_nil, List.append_nil, count_wake _ other]
  · have unseeded : ∀ effect ∈ effects, isSeed effect = false := by
      intro effect member
      rw [← Bool.not_eq_true]
      exact fun seed => seeded ⟨effect, member, seed⟩
    rw [seededBy_none unseeded]
    exact Nat.zero_le _

/-- What says that an output was persisted follows its `persist_output`, and goes to the parent. -/
theorem step_reports (stepped : workflow.step run event = some (next, effects)) {sent : Nat} {message : SentSignal}
    (member : message ∈ messagesFrom sent effects) {child : AgentRef} {agentName : String} {outputId : OutputId}
    (told : message.signal = .externalSignal (.childOutput child agentName outputId)) :
    messagesFrom sent effects = [message] ∧ child = ⟨run.workflowId, run.input.agentId⟩ ∧ agentName = run.input.agentName ∧
      (∃ parent, run.input.parentHandle = some parent ∧ message.target = parent.workflowId) ∧
      ∃ observation suggested, event = .reply (.outputPersisted (some outputId) observation) suggested := by
  obtain ⟨id, target, signal⟩ := message
  obtain rfl : signal = _ := told
  have asked : Effect.signalWorkflow target (.externalSignal (.childOutput child agentName outputId)) ∈ effects :=
    (mem_messagesFrom member).2.2
  rcases step_says stepped with ⟨quiet, -⟩ | ⟨effect, rfl, speaks⟩
  · cases quiet _ asked
  · obtain rfl := List.mem_singleton.mp asked
    have alone : messagesFrom sent [.signalWorkflow target (.externalSignal (.childOutput child agentName outputId))] =
        [⟨sent, target, .externalSignal (.childOutput child agentName outputId)⟩] := rfl
    rw [alone] at member ⊢
    refine ⟨by rw [List.mem_singleton.mp member], ?_⟩
    cases speaks with
    | output reported =>
      unfold reports at reported
      split at reported
      · rename_i persisted observation suggested
        cases named : run.input.parentHandle with
        | none =>
          rw [named] at reported
          cases reported
        | some parent =>
          rw [named] at reported
          obtain ⟨pair, -⟩ := List.cons.inj reported
          obtain ⟨target, output⟩ := Prod.mk.inj pair
          cases output
          exact ⟨rfl, rfl, ⟨parent, rfl, target.symm⟩, observation, suggested, rfl⟩
      · cases reported

end Seeds

/-- The message tells this workflow of the trigger. -/
def tells (workflowId : String) (trigger : Trigger) (message : SentSignal) : Bool :=
  decide (message.target = workflowId ∧ message.signal = .externalSignal trigger)

theorem mailTo_count (workflowId : String) (trigger : Trigger) (posted : List Posting) :
    (mailTo workflowId posted).triggers.count trigger = (deliveredOf posted).countP (tells workflowId trigger) := by
  unfold mailTo
  induction deliveredOf posted with
  | nil => rfl
  | cons message messages ih =>
    rw [List.filter_cons, List.countP_cons]
    by_cases here : message.target = workflowId
    · rw [if_pos (decide_eq_true here), List.map_cons, receivedMail_cons, Mail.append_triggers, List.count_append, ih,
        Nat.add_comm]
      congr 1
      unfold tells
      cases message.signal <;> simp [receivedMail, Mail.concat, here, List.count_singleton]
    · rw [if_neg (by simpa using here), ih, if_neg (by simp [tells, here]), Nat.add_zero]

/-- Each workflow runs under its own id. A seed is built from what was drained, and whoever is told of an output
is told by the child, once for each time that the output was persisted. -/
structure Reported (graph : Graph) (posted : List Posting) : Prop where
  named : ∀ workflowId run, graph.workflows workflowId = some run → run.workflowId = workflowId
  seeds : ∀ workflowId trigger, trigger ≠ .scheduledWake → (seededBy (effectsOf workflowId posted)).count trigger ≤
    (drainedMail (effectsOf workflowId posted)).triggers.count trigger
  told : ∀ workflowId child agentName outputId,
    (sentOf posted).countP (tells workflowId (.childOutput child agentName outputId)) ≤
      (persistedBy child.workflowId posted).count outputId
  kin : ∀ message ∈ sentOf posted, ∀ child agentName outputId,
    message.signal = .externalSignal (.childOutput child agentName outputId) → ∃ run parent,
      graph.workflows child.workflowId = some run ∧ run.input.parentHandle = some parent ∧
        message.target = parent.workflowId ∧ child.agentId = run.input.agentId ∧ agentName = run.input.agentName

section Step

variable {graph after : Graph} {event : GraphEvent} {posted : List Posting}

theorem performed_origin {workflowId : String} {run : Run} (effects : List Effect)
    (running : (effects.foldl Graph.perform graph).workflows workflowId = some run) :
    graph.workflows workflowId = some run ∨ ∃ input, run = (begin workflowId input).1 := by
  induction effects generalizing graph with
  | nil => exact .inl running
  | cons effect effects ih =>
    rcases ih running with there | started
    · cases effect with
      | startChild other input =>
        cases found : graph.workflows other with
        | some current =>
          simp only [Graph.perform, found] at there
          exact .inl there
        | none =>
          simp only [Graph.perform, found, setRun_workflows] at there
          split at there
          · rename_i same
            rw [← Option.some.inj there, same]
            exact .inr ⟨input, rfl⟩
          · exact .inl there
      | _ => exact .inl there
    · exact .inr started

/-- A run goes on for the same agent, and a new one under the id that it is started with. -/
theorem Changes.named (changes : Changes graph event after)
    (named : ∀ workflowId run, graph.workflows workflowId = some run → run.workflowId = workflowId) :
    (∀ workflowId run, graph.workflows workflowId = some run →
      ∃ next, after.workflows workflowId = some next ∧ SameAgent run.input next.input) ∧
      ∀ workflowId run, after.workflows workflowId = some run → run.workflowId = workflowId := by
  have goes : ∀ workflowId run, graph.workflows workflowId = some run → ∃ next, after.workflows workflowId = some next ∧
      SameAgent run.input next.input ∧ next.workflowId = run.workflowId := by
    intro workflowId run running
    obtain ⟨next, there, rfl | ⟨_, _, -, -, stepped⟩ | ⟨_, _, -, -, -, -, rfl⟩⟩ := changes.running running
    · exact ⟨_, there, .refl _, rfl⟩
    · exact ⟨_, there, step_input stepped⟩
    · exact ⟨_, there, .refl _, rfl⟩
  refine ⟨fun workflowId run running => ?_, fun workflowId run running => ?_⟩
  · obtain ⟨next, there, same, -⟩ := goes workflowId run running
    exact ⟨next, there, same⟩
  · cases before : graph.workflows workflowId with
    | some earlier =>
      obtain ⟨next, there, -, same⟩ := goes workflowId earlier before
      rw [running] at there
      rw [Option.some.inj there, same]
      exact named workflowId earlier before
    | none =>
      cases changes with
      | @acted acting internal current next effects inside here stepped launchable =>
        rcases performed_origin effects running with there | ⟨input, rfl⟩
        · rw [setRun_workflows] at there
          split at there
          · rename_i same
            rw [same, here] at before
            cases before
          · rw [before] at there
            cases there
        · exact (begin_input workflowId input).2
      | registered agentId =>
        rw [show graph.workflows workflowId = some run from running] at before
        cases before
      | @delivered id message current sent found here open_ =>
        have there : (graph.setRun message.target { current with state := current.state.receive message.signal }).workflows
            workflowId = some run := running
        rw [setRun_workflows] at there
        split at there
        · rename_i same
          rw [same, here] at before
          cases before
        · rw [before] at there
          cases there
      | lost id =>
        rw [show graph.workflows workflowId = some run from running] at before
        cases before

/-- A graph that goes on, and postings that say nothing of a child. -/
theorem Reported.rests {after : Graph} {more : List Posting} (reported : Reported graph posted)
    (goes : ∀ workflowId run, graph.workflows workflowId = some run →
      ∃ next, after.workflows workflowId = some next ∧ SameAgent run.input next.input)
    (named : ∀ workflowId run, after.workflows workflowId = some run → run.workflowId = workflowId)
    (seeds : ∀ workflowId trigger, trigger ≠ .scheduledWake → (seededBy (effectsOf workflowId more)).count trigger ≤
      (drainedMail (effectsOf workflowId more)).triggers.count trigger)
    (told : ∀ workflowId child agentName outputId,
      (sentOf more).countP (tells workflowId (.childOutput child agentName outputId)) ≤
        (persistedBy child.workflowId more).count outputId)
    (kin : ∀ message ∈ sentOf more, ∀ child agentName outputId,
      message.signal = .externalSignal (.childOutput child agentName outputId) → ∃ run parent,
        graph.workflows child.workflowId = some run ∧ run.input.parentHandle = some parent ∧
          message.target = parent.workflowId ∧ child.agentId = run.input.agentId ∧ agentName = run.input.agentName) :
    Reported after (posted ++ more) where
  named := named
  seeds workflowId trigger other := by
    rw [effectsOf_append, seededBy_append, drainedMail_append, Mail.append_triggers, List.count_append, List.count_append]
    exact Nat.add_le_add (reported.seeds workflowId trigger other) (seeds workflowId trigger other)
  told workflowId child agentName outputId := by
    rw [sentOf_append, List.countP_append, persistedBy_append, List.count_append]
    exact Nat.add_le_add (reported.told workflowId child agentName outputId) (told workflowId child agentName outputId)
  kin message member child agentName outputId signal := by
    rw [sentOf_append] at member
    obtain ⟨run, parent, running, above, rest⟩ := (List.mem_append.mp member).elim
      (fun earlier => reported.kin message earlier child agentName outputId signal)
      (fun new => kin message new child agentName outputId signal)
    obtain ⟨next, there, same⟩ := goes _ _ running
    refine ⟨next, parent, there, ?_⟩
    rw [← same] at above rest
    exact ⟨above, rest⟩

theorem acted_told {workflowId : String} {event : Event} {run next : Run} {effects : List Effect} {sent : Nat}
    (own : run.workflowId = workflowId) (stepped : workflow.step run event = some (next, effects)) (target : String)
    (child : AgentRef) (agentName : String) (outputId : OutputId) :
    (messagesFrom sent effects).countP (tells target (.childOutput child agentName outputId)) ≤
      (persistedBy child.workflowId [.acted workflowId event effects]).count outputId := by
  by_cases told : ∃ message ∈ messagesFrom sent effects, tells target (.childOutput child agentName outputId) message = true
  · obtain ⟨message, member, tells⟩ := told
    obtain ⟨alone, rfl, -, -, observation, suggested, rfl⟩ := step_reports stepped member (of_decide_eq_true tells).2
    have persisted : persistedBy run.workflowId [.acted workflowId (.reply (.outputPersisted (some outputId) observation)
        suggested) effects] = [outputId] := by
      simp [persistedBy, own]
    rw [alone]
    change _ ≤ (persistedBy run.workflowId _).count outputId
    rw [persisted, List.count_singleton_self]
    exact List.countP_le_length
  · rw [List.countP_eq_zero.mpr fun message member tells => told ⟨message, member, tells⟩]
    exact Nat.zero_le _

theorem Reported.acts {workflowId : String} {event : Event} {run next : Run} {effects : List Effect} {after : Graph}
    (reported : Reported graph posted) (running : graph.workflows workflowId = some run)
    (stepped : workflow.step run event = some (next, effects))
    (goes : ∀ workflowId run, graph.workflows workflowId = some run →
      ∃ next, after.workflows workflowId = some next ∧ SameAgent run.input next.input)
    (own : ∀ workflowId run, after.workflows workflowId = some run → run.workflowId = workflowId) :
    Reported after (posted ++ .acted workflowId event effects :: (messagesFrom graph.sent effects).map .sent) := by
  have named := reported.named workflowId run running
  obtain ⟨sent, -, -, asked⟩ := sentOf_acted workflowId event effects (messagesFrom graph.sent effects)
  refine reported.rests goes own ?_ ?_ ?_
  · intro other trigger unwoken
    rw [asked]
    split
    · exact step_seeds stepped unwoken
    · exact Nat.le_refl _
  · intro target child agentName outputId
    rw [sent, ← List.singleton_append, persistedBy_append, List.count_append]
    exact Nat.le_trans (acted_told named stepped target child agentName outputId) (Nat.le_add_right _ _)
  · intro message member child agentName outputId told
    rw [sent] at member
    obtain ⟨-, rfl, rfl, ⟨parent, above, target⟩, -⟩ := step_reports stepped member told
    exact ⟨run, parent, by rw [named]; exact running, above, target, rfl, rfl⟩

end Step

section Run

variable {graphId : GraphId} {inputs : List AgentInput}

/-- A graph that has just been applied: nothing is on its way, and no workflow has mail. -/
structure Opening (graph : Graph) : Prop where
  flight : graph.flight = []
  named : ∀ workflowId run, graph.workflows workflowId = some run → run.workflowId = workflowId
  mail : ∀ workflowId, pendingAt graph workflowId = {}

theorem start_opening (graphId : GraphId) (fresh : ∀ input ∈ inputs, input.carryover = none) :
    Opening (Graph.start graphId inputs) := by
  unfold Graph.start
  have empty : Opening ⟨graphId, [], fun _ => none, [], 0⟩ :=
    ⟨rfl, fun _ _ running => (Option.some_ne_none _ running.symm).elim, fun _ => rfl⟩
  generalize (⟨graphId, [], fun _ => none, [], 0⟩ : Graph) = graph at empty
  induction inputs generalizing graph with
  | nil => exact empty
  | cons input inputs ih =>
    obtain ⟨plain, others⟩ := List.forall_mem_cons.mp fresh
    refine ih others _ ⟨empty.flight, fun workflowId run running => ?_, fun workflowId => ?_⟩
    · have there : (graph.setRun (graph.workflowId input.agentId.toString)
          (begin (graph.workflowId input.agentId.toString) input).1).workflows workflowId = some run := running
      rw [setRun_workflows] at there
      split at there
      · rename_i same
        rw [← Option.some.inj there, same]
        exact (begin_input _ _).2
      · exact empty.named workflowId run there
    · have pending : pendingAt (graph.setRun (graph.workflowId input.agentId.toString)
          (begin (graph.workflowId input.agentId.toString) input).1) workflowId = {} := by
        rw [pendingAt_setRun, (begin_conserves _ _).2.1, empty.mail]
        unfold carriedMail
        rw [plain]
        split <;> rfl
      exact pending

theorem run_reported {start final : Graph} {events : List PostEvent} {posted : List Posting}
    (named : ∀ workflowId run, start.workflows workflowId = some run → run.workflowId = workflowId)
    (clients : ∀ target child agentName outputId,
      PostEvent.outside target (.externalSignal (.childOutput child agentName outputId)) ∉ events)
    (ran : post.run start events = some (final, posted)) : Reported final posted := by
  have kept : (∀ target child agentName outputId,
      PostEvent.outside target (.externalSignal (.childOutput child agentName outputId)) ∉ events) → Reported final posted := by
    refine post.history_invariant (fun events graph posted => (∀ target child agentName outputId,
      PostEvent.outside target (.externalSignal (.childOutput child agentName outputId)) ∉ events) →
        Reported graph posted) ?_ ?_ ran
    · exact fun _ => ⟨named, fun _ _ _ => Nat.le_refl _, fun _ _ _ _ => Nat.le_refl _,
        fun _ member => absurd member List.not_mem_nil⟩
    · intro earlier graph posted event after more held answered clients
      have reported := held fun target child agentName outputId member =>
        clients target child agentName outputId (List.mem_append_left _ member)
      cases event with
      | outside target signal =>
        cases answered
        refine reported.rests (fun workflowId run running => ⟨run, running, .refl _⟩) reported.named (fun _ _ _ => Nat.le_refl _)
          ?_ ?_
        · intro workflowId child agentName outputId
          rw [show sentOf [.sent ⟨graph.sent, target, signal⟩] = [⟨graph.sent, target, signal⟩] from rfl,
            List.countP_eq_zero.mpr]
          · exact Nat.zero_le _
          · intro message member tells
            rw [List.mem_singleton.mp member] at tells
            obtain ⟨-, rfl⟩ := of_decide_eq_true tells
            exact clients _ _ _ _ (List.mem_append_right _ (List.mem_singleton_self _))
        · intro message member child agentName outputId told
          rw [List.mem_singleton.mp member] at told
          obtain rfl : signal = _ := told
          exact (clients _ _ _ _ (List.mem_append_right _ (List.mem_singleton_self _))).elim
      | inside event =>
        obtain ⟨next, moved, whole⟩ := Option.map_eq_some_iff.mp answered
        obtain ⟨rfl, rfl⟩ := Prod.mk.inj whole
        have changes := graph_changes moved
        obtain ⟨goes, own⟩ := changes.named reported.named
        cases changes with
        | @acted workflowId event run next effects inside running stepped launchable =>
          rw [postings_acted running stepped]
          exact reported.acts running stepped goes own
        | registered agentId =>
          exact reported.rests goes own (fun _ _ _ => Nat.le_refl _) (fun _ _ _ _ => Nat.le_refl _)
            fun _ member => absurd member List.not_mem_nil
        | @delivered id message run sent found running open_ =>
          rw [postings_delivered found]
          exact reported.rests goes own (fun _ _ _ => Nat.le_refl _) (fun _ _ _ _ => Nat.le_refl _)
            fun _ member => absurd member List.not_mem_nil
        | lost id =>
          obtain ⟨-, sent, -, quiet⟩ := lostOf_lost (graph.flight.filter (·.id == id))
          refine @Reported.rests graph posted _ (postings graph (.lose id)) reported goes own ?_ ?_ ?_
          · intro workflowId trigger other
            rw [show effectsOf workflowId (postings graph (.lose id)) = [] from quiet workflowId]
            exact Nat.le_refl _
          · intro workflowId child agentName outputId
            rw [show sentOf (postings graph (.lose id)) = [] from sent]
            exact Nat.zero_le _
          · intro message member
            rw [show sentOf (postings graph (.lose id)) = [] from sent] at member
            cases member
  exact kept clients

/-- A seed names a child's output no more often than the child's `persist_output` answered with it, and only
where the agent is that child's parent: as long as no client signals a child's output. -/
theorem child_output_told {final : Graph} {events : List PostEvent} {posted : List Posting}
    (fresh : ∀ input ∈ inputs, input.carryover = none)
    (clients : ∀ target child agentName outputId,
      PostEvent.outside target (.externalSignal (.childOutput child agentName outputId)) ∉ events)
    (ran : post.run (Graph.start graphId inputs) events = some (final, posted)) (workflowId : String) (child : AgentRef)
    (agentName : String) (outputId : OutputId) :
    (seededBy (effectsOf workflowId posted)).count (.childOutput child agentName outputId) ≤
        (persistedBy child.workflowId posted).count outputId ∧
      (.childOutput child agentName outputId ∈ seededBy (effectsOf workflowId posted) → ∃ run parent,
        final.workflows child.workflowId = some run ∧ run.input.parentHandle = some parent ∧
          workflowId = parent.workflowId ∧ child.agentId = run.input.agentId ∧ agentName = run.input.agentName) := by
  have opening := start_opening graphId fresh
  have reported := run_reported opening.named clients ran
  obtain ⟨accounted, drained, -⟩ := run_accounted opening.flight ran
  have mail := congrArg (fun mail : Mail => mail.triggers.count (.childOutput child agentName outputId)) (drained workflowId)
  simp only [Mail.append_triggers, List.count_append, opening.mail, Mail.empty_append, mailTo_count] at mail
  have seeds := reported.seeds workflowId (.childOutput child agentName outputId) (by simp)
  have whole := accounted.whole.countP_eq (tells workflowId (.childOutput child agentName outputId))
  simp only [List.countP_append] at whole
  have told := reported.told workflowId child agentName outputId
  refine ⟨by omega, fun seeded => ?_⟩
  have some_seed := List.count_pos_iff.mpr seeded
  obtain ⟨message, member, tells⟩ := List.countP_pos_iff.mp
    (show 0 < (sentOf posted).countP (tells workflowId (.childOutput child agentName outputId)) by omega)
  obtain ⟨rfl, signal⟩ := of_decide_eq_true tells
  exact reported.kin message member child agentName outputId signal

end Run

section Examples

private def chiefInput : AgentInput := AgentInput.newForTest ⟨⟨0⟩⟩ ⟨⟨1⟩⟩ "chief"

private def chiefId : String := agentWorkflowId (GraphId.toString ⟨⟨0⟩⟩) (AgentId.toString ⟨⟨1⟩⟩)

private def scoutInput : AgentInput :=
  { AgentInput.newForTest ⟨⟨0⟩⟩ ⟨⟨2⟩⟩ "scout" with parentHandle := some ⟨chiefId, ParentRef.DEFAULT_SIGNAL⟩ }

private def scoutId : String := agentWorkflowId (GraphId.toString ⟨⟨0⟩⟩) (AgentId.toString ⟨⟨2⟩⟩)

private def scouted : OutputId := ⟨"5c"⟩

private def scoutActs (reply : Reply) : PostEvent := .inside (.act scoutId (.reply reply false))

private def scouting : List PostEvent :=
  [.outside scoutId (.externalSignal .scheduledWake), .inside (.deliver 0), .inside (.act scoutId .woken),
    scoutActs (.seedBuilt ⟨scoutInput.mandate, [], {}⟩), scoutActs (.decided (.writeOutput "Found." ["evidence/a.json"])),
    scoutActs .logged, scoutActs (.outputPersisted (some scouted) (.success "output persisted")), .inside (.deliver 1),
    .inside (.act chiefId .woken)]

/-- The scout persists an output, and its chief is told of it. -/
theorem child_output_told_scout : ∃ final posted,
    post.run (Graph.start ⟨⟨0⟩⟩ [chiefInput, scoutInput]) scouting = some (final, posted) ∧
      Trigger.childOutput ⟨scoutId, ⟨⟨2⟩⟩⟩ "scout" scouted ∈ seededBy (effectsOf chiefId posted) ∧
      1 ≤ (persistedBy scoutId posted).count scouted := by
  have answered : (post.run (Graph.start ⟨⟨0⟩⟩ [chiefInput, scoutInput]) scouting).map (fun ended =>
      seededBy (effectsOf chiefId ended.2)) = some [.childOutput ⟨scoutId, ⟨⟨2⟩⟩⟩ "scout" scouted] := by rfl
  obtain ⟨⟨final, posted⟩, ran, seeded⟩ := Option.map_eq_some_iff.mp answered
  have fresh : ∀ input ∈ [chiefInput, scoutInput], input.carryover = none := by decide
  have clients : ∀ target child agentName outputId,
      PostEvent.outside target (.externalSignal (.childOutput child agentName outputId)) ∉ scouting := by
    simp [scouting, scoutActs]
  obtain ⟨once, -⟩ := child_output_told fresh clients ran chiefId ⟨scoutId, ⟨⟨2⟩⟩⟩ "scout" scouted
  simp only at seeded
  rw [seeded, List.count_singleton_self] at once
  exact ⟨final, posted, ran, by rw [seeded]; exact List.mem_singleton_self _, once⟩

end Examples

end Coral.Temporal.Proofs

import Coral.Proofs.WorkflowStep

/-! Every signal received is drained once, in order, or still pending, whatever drains,
cycles and continued runs lie between. The counters count receipts. -/

namespace Coral.Temporal.Proofs
open Coral.Library

/-- What the three signal buckets hold. -/
@[ext] structure Mail where
  triggers : List Trigger := []
  humanOps : List HumanOp := []
  mandatePatches : List MandatePatch := []

namespace Mail

instance : Append Mail where
  append first second := ⟨first.triggers ++ second.triggers, first.humanOps ++ second.humanOps,
    first.mandatePatches ++ second.mandatePatches⟩

def concat : List Mail → Mail
  | [] => {}
  | mail :: rest => mail ++ concat rest

@[simp] theorem append_triggers (first second : Mail) :
    (first ++ second).triggers = first.triggers ++ second.triggers := rfl

@[simp] theorem append_humanOps (first second : Mail) :
    (first ++ second).humanOps = first.humanOps ++ second.humanOps := rfl

@[simp] theorem append_mandatePatches (first second : Mail) :
    (first ++ second).mandatePatches = first.mandatePatches ++ second.mandatePatches := rfl

@[simp] theorem append_empty (mail : Mail) : mail ++ ({} : Mail) = mail := by
  ext1 <;> simp

@[simp] theorem empty_append (mail : Mail) : ({} : Mail) ++ mail = mail := rfl

theorem append_assoc (first second third : Mail) : first ++ second ++ third = first ++ (second ++ third) := by
  ext1 <;> simp

theorem concat_append (first second : List Mail) : concat (first ++ second) = concat first ++ concat second := by
  induction first with
  | nil => rfl
  | cons mail first ih => simp only [List.cons_append, concat, ih, append_assoc]

end Mail

def mailOf (s : AgentWorkflow) : Mail := ⟨s.pendingTriggers, s.pendingHumanOps, s.pendingMandatePatches⟩

def carriedMail (input : AgentInput) : Mail :=
  match input.carryover with
  | some carryover => ⟨carryover.pendingTriggers, carryover.pendingHumanOps, carryover.pendingMandatePatches⟩
  | none => {}

def drainedMail (effects : List Effect) : Mail :=
  .concat (effects.map fun
    | .drained buckets => ⟨buckets.triggers, buckets.humanOps, buckets.mandatePatches⟩
    | _ => {})

/-- A retire is no mail: it goes into a slot of its own. -/
def receivedMail (events : List Event) : Mail :=
  .concat (events.map fun
    | .signal (.externalSignal trigger) => { triggers := [trigger] }
    | .signal (.humanOverride op) => { humanOps := [op] }
    | .signal (.mandateUpdate patch) => { mandatePatches := [patch] }
    | _ => {})

/-- The three `cumulative_*_observed` counters. -/
structure Counts where
  triggers : Nat := 0
  humanOps : Nat := 0
  mandatePatches : Nat := 0

def observed (s : AgentWorkflow) : Counts :=
  ⟨s.cumulativeTriggersObserved.toNat, s.cumulativeHumanOpsObserved.toNat, s.cumulativeMandatePatchesObserved.toNat⟩

def carriedCounts (input : AgentInput) : Counts :=
  match input.carryover with
  | some carryover => ⟨carryover.cumulativeTriggersObserved.toNat, carryover.cumulativeHumanOpsObserved.toNat,
      carryover.cumulativeMandatePatchesObserved.toNat⟩
  | none => {}

/-- Counts before, with the receipts of `mail` added, saturating at `u64::MAX`. -/
def Counts.plus (counts : Counts) (mail : Mail) : Counts :=
  ⟨min (counts.triggers + mail.triggers.length) u64Max, min (counts.humanOps + mail.humanOps.length) u64Max,
    min (counts.mandatePatches + mail.mandatePatches.length) u64Max⟩

theorem Counts.plus_append (counts : Counts) (first second : Mail) :
    (counts.plus first).plus second = counts.plus (first ++ second) := by
  simp only [Counts.plus, Mail.append_triggers, Mail.append_humanOps, Mail.append_mandatePatches,
    List.length_append, Counts.mk.injEq]
  omega

theorem observed_plus_empty (s : AgentWorkflow) : (observed s).plus {} = observed s := by
  have first := toNat_le_u64Max s.cumulativeTriggersObserved
  have second := toNat_le_u64Max s.cumulativeHumanOpsObserved
  have third := toNat_le_u64Max s.cumulativeMandatePatchesObserved
  simp only [Counts.plus, observed, List.length_nil, Counts.mk.injEq]
  omega

private theorem drainedMail_plain {effects : List Effect} (quiet : ∀ effect ∈ effects, plain effect = true) :
    drainedMail effects = {} := by
  induction effects with
  | nil => rfl
  | cons effect effects ih =>
    have rest := ih fun other member => quiet other (List.mem_cons_of_mem _ member)
    have head := quiet effect List.mem_cons_self
    unfold drainedMail at rest ⊢
    rw [List.map_cons, Mail.concat, rest]
    cases effect <;> first | rfl | cases head

theorem drainedMail_append (first second : List Effect) :
    drainedMail (first ++ second) = drainedMail first ++ drainedMail second := by
  simp only [drainedMail, List.map_append, Mail.concat_append]

theorem receivedMail_append (first second : List Event) :
    receivedMail (first ++ second) = receivedMail first ++ receivedMail second := by
  simp only [receivedMail, List.map_append, Mail.concat_append]

private theorem receivedMail_other {event : Event} (other : ∀ signal, event ≠ .signal signal) :
    receivedMail [event] = {} := by
  cases event with
  | signal signal => exact (other signal rfl).elim
  | _ => rfl

theorem receive_mail (s : AgentWorkflow) (signal : Signal) :
    mailOf (s.receive signal) = mailOf s ++ receivedMail [.signal signal] := by
  cases signal <;> simp [mailOf, receivedMail, Mail.concat, AgentWorkflow.receive, Mail.ext_iff]

theorem receive_observed (s : AgentWorkflow) (signal : Signal) :
    observed (s.receive signal) = (observed s).plus (receivedMail [.signal signal]) := by
  have first := toNat_le_u64Max s.cumulativeTriggersObserved
  have second := toNat_le_u64Max s.cumulativeHumanOpsObserved
  have third := toNat_le_u64Max s.cumulativeMandatePatchesObserved
  cases signal <;>
    simp only [observed, receivedMail, Mail.concat, AgentWorkflow.receive, Counts.plus, toNat_saturatingAdd,
      List.map_cons, List.map_nil, Mail.append_empty, List.length_nil, List.length_cons, Counts.mk.injEq] <;>
    simp <;> omega

/-- The loop top neither drains nor touches a bucket or a counter. -/
private theorem loopTop_conserves (ctx : Context) (resume : Option Session) :
    drainedMail (ctx.loopTop resume).2 = {} ∧ mailOf (ctx.loopTop resume).1.state = mailOf ctx.state ∧
      observed (ctx.loopTop resume).1.state = observed ctx.state := by
  refine ⟨drainedMail_plain (loopTop_plain ctx resume), ?_⟩
  unfold Context.loopTop
  split
  · exact ⟨rfl, rfl⟩
  · exact ⟨rfl, rfl⟩
  · split <;> exact ⟨rfl, rfl⟩

theorem begin_conserves (workflowId : String) (input : AgentInput) :
    drainedMail (begin workflowId input).2 = {} ∧ mailOf (begin workflowId input).1.state = carriedMail input ∧
      observed (begin workflowId input).1.state = carriedCounts input := by
  unfold begin carriedMail carriedCounts
  cases input.carryover with
  | none => exact loopTop_conserves _ _
  | some carryover => exact loopTop_conserves _ _

/-- A hand-over of everything `encode_carryover` takes. -/
private theorem continueAsNew_conserves (ctx : Context) (next : AgentInput)
    (mail : carriedMail next = mailOf ctx.state) (counts : carriedCounts next = observed ctx.state) :
    drainedMail (ctx.continueAsNew next).2 = {} ∧ mailOf (ctx.continueAsNew next).1.state = mailOf ctx.state ∧
      observed (ctx.continueAsNew next).1.state = observed ctx.state := by
  obtain ⟨drained, kept, counted⟩ := begin_conserves ctx.workflowId next
  refine ⟨?_, kept.trans mail, counted.trans counts⟩
  change ({} : Mail) ++ drainedMail (begin ctx.workflowId next).2 = {}
  rw [drained, Mail.empty_append]

theorem advances_conserves {ctx : Context} {event : Event} {await : Await} {next : Run} {effects : List Effect}
    (advances : Advances ctx event await (next, effects)) :
    drainedMail effects ++ mailOf next.state = mailOf ctx.state ∧ observed next.state = observed ctx.state := by
  obtain ⟨result, rfl, rfl, advanced⟩ := advances.result
  cases advanced with
  | left reason =>
    unfold Context.leaveGate
    dsimp only
    split
    · exact ⟨by simp [emit, Context.retire, Context.schedule, Context.awaiting, drainedMail, Mail.concat, mailOf,
        drainBuckets], rfl⟩
    · exact ⟨by simp [emit, Context.schedule, Context.awaiting, drainedMail, Mail.concat, mailOf, drainBuckets],
        rfl⟩
  | stayed childHandles other stays =>
    exact ⟨by rw [drainedMail_plain stays.quiet]; rfl, rfl⟩
  | carried childHandles session other cycle fits =>
    obtain ⟨drained, kept, counted⟩ := continueAsNew_conserves (within ctx ctx.state.nextWake childHandles)
      (midCycleInput ctx.input (within ctx ctx.state.nextWake childHandles).state.encodeCarryover session) rfl rfl
    exact ⟨by rw [drained, kept]; rfl, counted⟩
  | ended =>
    obtain ⟨drained, kept, counted⟩ := loopTop_conserves ctx.bumpTick none
    exact ⟨by rw [drained, kept]; rfl, counted⟩
  | handedOver =>
    obtain ⟨drained, kept, counted⟩ := continueAsNew_conserves ctx.bumpTick
      { ctx.input with carryover := some ctx.bumpTick.state.encodeCarryover } rfl rfl
    exact ⟨by rw [drained, kept]; rfl, counted⟩

/-- No signal is lost, duplicated or reordered. -/
structure Conserved (input : AgentInput) (events : List Event) (run : Run) (effects : List Effect) : Prop where
  mail : drainedMail effects ++ mailOf run.state = carriedMail input ++ receivedMail events
  counts : observed run.state = (carriedCounts input).plus (receivedMail events)

/-- A step moves signals from the buckets into its drain, and into the buckets what it receives. -/
theorem step_mail {run next : Run} {event : Event} {effects : List Effect}
    (stepped : workflow.step run event = some (next, effects)) :
    drainedMail effects ++ mailOf next.state = mailOf run.state ++ receivedMail [event] ∧
      observed next.state = (observed run.state).plus (receivedMail [event]) := by
  obtain ⟨signal, rfl, -, rfl, rfl⟩ | ⟨other, advances⟩ := step_cases stepped
  · exact ⟨receive_mail run.state signal, receive_observed run.state signal⟩
  · obtain ⟨kept, counted⟩ := advances_conserves advances
    rw [receivedMail_other other, Mail.append_empty, observed_plus_empty]
    exact ⟨kept, counted⟩

theorem run_mail {run final : Run} {events : List Event} {effects : List Effect}
    (ran : workflow.run run events = some (final, effects)) :
    drainedMail effects ++ mailOf final.state = mailOf run.state ++ receivedMail events := by
  refine workflow.history_invariant (fun events final effects =>
    drainedMail effects ++ mailOf final.state = mailOf run.state ++ receivedMail events) ?_ ?_ ran
  · exact (Mail.append_empty (mailOf run.state)).symm
  · intro events middle effects event next more kept stepped
    rw [drainedMail_append, Mail.append_assoc, (step_mail stepped).1, ← Mail.append_assoc, kept, Mail.append_assoc,
      receivedMail_append]

theorem Conserved.step {input : AgentInput} {events : List Event} {run next : Run} {effects more : List Effect}
    {event : Event} (conserved : Conserved input events run effects)
    (stepped : workflow.step run event = some (next, more)) :
    Conserved input (events ++ [event]) next (effects ++ more) := by
  obtain ⟨mail, counts⟩ := conserved
  obtain ⟨kept, counted⟩ := step_mail stepped
  refine ⟨?_, ?_⟩
  · rw [drainedMail_append, Mail.append_assoc, kept, ← Mail.append_assoc, mail, Mail.append_assoc, receivedMail_append]
  · rw [counted, counts, Counts.plus_append, receivedMail_append]

theorem signals_conserved (workflowId : String) (input : AgentInput) (events : List Event) (run : Run)
    (effects : List Effect) (lived : lifetime workflowId input events = some (run, effects)) :
    Conserved input events run effects := by
  refine lifetime_invariant (Conserved input) ?_ (fun _ _ _ _ _ _ conserved stepped => conserved.step stepped) lived
  obtain ⟨drained, kept, counted⟩ := begin_conserves workflowId input
  refine ⟨?_, ?_⟩
  · rw [drained, kept]
    exact (Mail.append_empty _).symm
  · rw [← counted]
    exact (observed_plus_empty _).symm

/-- A trigger drained, a human op left queued over a boundary continue-as-new, and its drain. -/
theorem signals_conserved_over_boundary :
    let input := AgentInput.newForTest ⟨⟨0⟩⟩ ⟨⟨1⟩⟩ "root"
    let events : List Event := [.signal (.externalSignal .scheduledWake), .woken,
      .reply (.seedBuilt ⟨input.mandate, [], {}⟩) false, .signal (.humanOverride ⟨.null⟩),
      .reply (.decided (.idle ⟨0⟩)) false, .reply .logged false, .reply .committed true, .woken]
    ∃ run effects, lifetime "root" input events = some (run, effects) ∧ Conserved input events run effects :=
  ⟨_, _, rfl, signals_conserved _ _ _ _ _ rfl⟩

end Coral.Temporal.Proofs

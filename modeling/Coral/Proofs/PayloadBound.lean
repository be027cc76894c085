import Coral.Proofs.SignalConservation
import Coral.Proofs.WorkflowInvariant

/-! What a continue-as-new hands over, in bytes. The mid-cycle site measures its payload; the
cycle boundary does not, and what came in since the last wake decides whether it fits. -/

namespace Coral.Temporal.Proofs
open Coral.Library

section Bytes

/-- The items of an array, with the commas between them. -/
def itemsBytes {α : Type} (toJson : α → Json) (items : List α) : Nat :=
  (items.map fun item => (toJson item).byteLength).sum + (items.length - 1)

theorem renderItems_bytes {α : Type} (toJson : α → Json) (items : List α) :
    Json.utf8Length (Json.renderItems (items.map toJson)) = itemsBytes toJson items := by
  unfold itemsBytes Json.byteLength
  induction items with
  | nil => rfl
  | cons first rest ih =>
    cases rest with
    | nil => simp [Json.renderItems]
    | cons second others =>
      have comma : Json.utf8Length [','] = 1 := rfl
      simp only [List.map_cons, Json.renderItems, Json.utf8Length_append, comma, List.sum_cons, List.length_cons] at ih ⊢
      omega

theorem list_bytes {α : Type} (toJson : α → Json) (items : List α) :
    Json.utf8Length (Json.list toJson items).render = itemsBytes toJson items + 2 := by
  have opening : Json.utf8Length ['['] = 1 := rfl
  have closing : Json.utf8Length [']'] = 1 := rfl
  simp only [Json.list, Json.render, Json.utf8Length_append, renderItems_bytes, opening, closing]
  omega

/-- What the signals queue until the next wake: the buckets and the reason to retire. -/
structure Queue where
  mail : Mail := {}
  retirement : Option String := none

namespace Queue

def carried (input : AgentInput) : Queue := ⟨carriedMail input, input.carryover.bind (·.retirementRequest)⟩

/-- A wake takes the queue. A later reason to retire replaces an earlier one. -/
def receive (queued : Queue) : Event → Queue
  | .woken => {}
  | .timerFired => {}
  | .signal (.retire reason) => { queued with retirement := some reason }
  | event => { queued with mail := queued.mail ++ receivedMail [event] }

def bytes (queued : Queue) : Nat :=
  itemsBytes Trigger.toJson queued.mail.triggers + itemsBytes HumanOp.toJson queued.mail.humanOps +
    itemsBytes MandatePatch.toJson queued.mail.mandatePatches + (Json.option .string queued.retirement).byteLength

end Queue

/-- What the events leave queued, over what the input carries. -/
def queuedBy (input : AgentInput) (events : List Event) : Queue := events.foldl .receive (.carried input)

/-- The counters, the cadence and the last output. -/
def cursorBytes (s : AgentWorkflow) : Nat :=
  (Json.option Duration.toJson s.nextWake).byteLength + (Json.option OutputId.toJson s.lastOutputId).byteLength +
    (Json.nat s.cumulativeTriggersObserved.toNat).byteLength + (Json.nat s.cumulativeHumanOpsObserved.toNat).byteLength +
    (Json.nat s.cumulativeMandatePatchesObserved.toNat).byteLength + (Json.nat s.tick.toNat).byteLength

/-- The names and the brackets of a carryover, over the `null` that stands for none. -/
def CARRYOVER_FRAME_BYTES : Nat := 293

/-- What a carryover adds to the frame. -/
def stateBytes (s : AgentWorkflow) : Nat :=
  Queue.bytes ⟨mailOf s, s.retirementRequest⟩ + itemsBytes AgentRef.toJson s.childHandles + cursorBytes s

/-- The members of any two carryovers have the same names. -/
theorem carryover_alike (s other : AgentWorkflow) :
    s.encodeCarryover.toJson.byteLength + stateBytes other = other.encodeCarryover.toJson.byteLength + stateBytes s := by
  unfold stateBytes Queue.bytes cursorBytes mailOf AgentWorkflow.encodeCarryover Json.byteLength
  simp only [Carryover.toJson, Json.option_none, Json.render, Json.renderMembers, Json.utf8Length_append, list_bytes]
  omega

theorem carryover_bytes (s : AgentWorkflow) :
    s.encodeCarryover.toJson.byteLength = CARRYOVER_FRAME_BYTES + 4 + stateBytes s := by
  have alike := carryover_alike s {}
  have empty : ({} : AgentWorkflow).encodeCarryover.toJson.byteLength = 313 ∧ stateBytes {} = 16 := by decide +kernel
  rw [empty.1, empty.2] at alike
  unfold CARRYOVER_FRAME_BYTES
  omega

/-- The input without its carryover. -/
def bareBytes (input : AgentInput) : Nat := ({ input with carryover := none } : AgentInput).toJson.byteLength

theorem carrying_bytes (input : AgentInput) (carryover : Carryover) :
    ({ input with carryover := some carryover } : AgentInput).toJson.byteLength + 4 =
      bareBytes input + carryover.toJson.byteLength := by
  have nothing : Json.utf8Length ['n', 'u', 'l', 'l'] = 4 := rfl
  unfold bareBytes Json.byteLength
  simp only [AgentInput.toJson, Json.option_some, Json.option_none, Json.render, Json.renderMembers, Json.utf8Length_append, nothing]
  omega

theorem carrying_fits_iff (input : AgentInput) (s : AgentWorkflow) :
    ({ input with carryover := some s.encodeCarryover } : AgentInput).toJson.byteLength ≤ CAN_PAYLOAD_HARD_BYTES ↔
      bareBytes input + CARRYOVER_FRAME_BYTES + stateBytes s ≤ CAN_PAYLOAD_HARD_BYTES := by
  have size := carrying_bytes input s.encodeCarryover
  rw [carryover_bytes] at size
  omega

theorem bareBytes_congr {input other : AgentInput} (same : SameAgent input other) : bareBytes other = bareBytes input := by
  rw [← same]
  rfl

end Bytes

section Queue

variable {queued : Queue} {run next : Run} {event : Event} {effects : List Effect}

theorem Queue.receive_reply (queued : Queue) (reply : Reply) (suggested : Bool) :
    queued.receive (.reply reply suggested) = queued := by
  unfold Queue.receive receivedMail
  simp only [List.map_cons, List.map_nil, Mail.concat, Mail.append_empty]

/-- A run holds what is queued. One that retires has taken the reason. -/
structure Queues (queued : Queue) (run : Run) : Prop where
  mail : mailOf run.state = queued.mail
  retirement : inCycle run.await = true ∨ atGate run.await = true → run.state.retirementRequest = queued.retirement

private theorem loopTop_queues {ctx : Context} {resume : Option Session} (mail : mailOf ctx.state = queued.mail)
    (retirement : ctx.state.retirementRequest = queued.retirement) : Queues queued (ctx.loopTop resume).1 := by
  unfold Context.loopTop
  split
  · exact ⟨mail, fun _ => retirement⟩
  · exact ⟨mail, fun _ => retirement⟩
  · split
    · exact ⟨mail, by simp [Context.retire, Context.schedule, Context.awaiting, inCycle, atGate]⟩
    · exact ⟨mail, fun _ => retirement⟩

private theorem begin_queues (workflowId : String) (input : AgentInput) :
    Queues (.carried input) (begin workflowId input).1 := by
  unfold begin Queue.carried carriedMail
  cases input.carryover with
  | none => exact loopTop_queues rfl rfl
  | some carryover => exact loopTop_queues rfl rfl

private theorem leaveGate_queues (ctx : Context) : Queues {} ctx.leaveGate.1 := by
  unfold Context.leaveGate
  dsimp only
  split
  · exact ⟨rfl, by simp [emit, Context.retire, Context.schedule, Context.awaiting, inCycle, atGate]⟩
  · exact ⟨rfl, fun _ => rfl⟩

private theorem Queues.receive (queues : Queues queued run) (signal : Signal) :
    Queues (queued.receive (.signal signal)) { run with state := run.state.receive signal } := by
  have mail := receive_mail run.state signal
  rw [queues.mail] at mail
  cases signal with
  | retire reason => exact ⟨queues.mail, fun _ => rfl⟩
  | _ => exact ⟨mail, queues.retirement⟩

private theorem Queues.step (queues : Queues queued run) (stepped : workflow.step run event = some (next, effects)) :
    Queues (queued.receive event) next := by
  obtain ⟨signal, rfl, -, rfl, -⟩ | ⟨-, advances⟩ := step_cases stepped
  · exact queues.receive signal
  · obtain ⟨result, rfl, rfl, advanced⟩ := advances.result
    generalize waiting : run.await = await at advanced
    cases advanced with
    | left reason => obtain ⟨rfl, -⟩ | ⟨rfl, -⟩ := reason <;> exact leaveGate_queues _
    | stayed childHandles other stays =>
      rw [Queue.receive_reply]
      refine ⟨queues.mail, ?_⟩
      rintro (cycle | gate)
      · exact queues.retirement (.inl (waiting ▸ stays.cycle cycle))
      · exact absurd (stays.asleep.symm.trans gate) (by simp)
    | carried childHandles session other cycle fits =>
      have held := queues.retirement (.inl (waiting ▸ cycle))
      rw [Queue.receive_reply]
      exact loopTop_queues queues.mail held
    | ended =>
      have held := queues.retirement (.inl (by rw [waiting]; rfl))
      rw [Queue.receive_reply]
      exact loopTop_queues queues.mail held
    | handedOver =>
      have held := queues.retirement (.inl (by rw [waiting]; rfl))
      rw [Queue.receive_reply]
      exact loopTop_queues queues.mail held

theorem run_queues {workflowId : String} {input : AgentInput} {events : List Event}
    (ran : workflow.run (begin workflowId input).1 events = some (run, effects)) : Queues (queuedBy input events) run := by
  refine workflow.history_invariant (fun events run _ => Queues (queuedBy input events) run) (begin_queues workflowId input) ?_ ran
  intro events run effects event next more queues stepped
  unfold queuedBy
  rw [List.foldl_append]
  exact queues.step stepped

end Queue

section Fits

def Fits (effect : Effect) : Prop :=
  ∀ next, effect = .continueAsNew next → next.toJson.byteLength ≤ CAN_PAYLOAD_HARD_BYTES

private theorem plain_fits {effects : List Effect} (quiet : ∀ effect ∈ effects, plain effect = true) :
    ∀ effect ∈ effects, Fits effect := by
  rintro _ member next rfl
  cases quiet _ member

private theorem begin_plain (workflowId : String) (input : AgentInput) :
    ∀ effect ∈ (begin workflowId input).2, plain effect = true := loopTop_plain _ _

private theorem continueAsNew_fits (ctx : Context) (next : AgentInput) :
    (∀ effect ∈ (ctx.continueAsNew next).2, Fits effect) ↔ next.toJson.byteLength ≤ CAN_PAYLOAD_HARD_BYTES := by
  change (∀ effect ∈ Effect.continueAsNew next :: (begin ctx.workflowId next).2, Fits effect) ↔ _
  rw [List.forall_mem_cons]
  constructor
  · exact fun fits => fits.1 next rfl
  · exact fun fits => ⟨fun other same => Effect.continueAsNew.inj same ▸ fits, plain_fits (begin_plain _ _)⟩

private theorem leaveGate_fits (ctx : Context) : ∀ effect ∈ ctx.leaveGate.2, Fits effect := by
  rintro _ member next rfl
  unfold Context.leaveGate at member
  dsimp only at member
  split at member <;> simp [emit, Context.retire, Context.schedule] at member

/-- At a boundary that hands over, the input and the state fit. -/
private def Measured (run : Run) (event : Event) : Prop :=
  event = .reply .committed true →
    bareBytes run.input + CARRYOVER_FRAME_BYTES + stateBytes run.bumpTick.state ≤ CAN_PAYLOAD_HARD_BYTES

private theorem step_fits_iff {run next : Run} {event : Event} {effects : List Effect}
    (stepped : workflow.step run event = some (next, effects)) :
    (∀ effect ∈ effects, Fits effect) ↔ Measured run event := by
  obtain ⟨signal, rfl, -, -, rfl⟩ | ⟨-, advances⟩ := step_cases stepped
  · exact iff_of_true (List.forall_mem_nil _) fun impossible => nomatch impossible
  · obtain ⟨result, rfl, rfl, advanced⟩ := advances.result
    generalize run.await = await at advanced
    cases advanced with
    | left reason =>
      refine iff_of_true (leaveGate_fits _) ?_
      obtain ⟨rfl, -⟩ | ⟨rfl, -⟩ := reason <;> exact fun impossible => nomatch impossible
    | stayed childHandles other stays =>
      exact iff_of_true (plain_fits stays.quiet) fun same => (other (Event.reply.inj same).1).elim
    | carried childHandles session other cycle fits =>
      exact iff_of_true ((continueAsNew_fits _ _).mpr fits) fun same => (other (Event.reply.inj same).1).elim
    | ended =>
      exact iff_of_true (plain_fits (loopTop_plain _ _)) fun impossible => nomatch impossible
    | handedOver =>
      refine (continueAsNew_fits _ _).trans ((carrying_fits_iff run.input run.bumpTick.state).trans ?_)
      exact ⟨fun room _ => room, fun room => room rfl⟩

/-- At each boundary that hands over, the queue, the children and the cursor have room beside the input. -/
def Roomy (workflowId : String) (input : AgentInput) (events : List Event) : Prop :=
  ∀ earlier later run effects, events = earlier ++ .reply .committed true :: later →
    workflow.run (begin workflowId input).1 earlier = some (run, effects) →
    bareBytes input + CARRYOVER_FRAME_BYTES + (queuedBy input earlier).bytes +
      itemsBytes AgentRef.toJson run.state.childHandles + cursorBytes run.bumpTick.state ≤ CAN_PAYLOAD_HARD_BYTES

private theorem committing {run next : Run} {effects : List Effect} {suggested : Bool}
    (stepped : workflow.step run (.reply .committed suggested) = some (next, effects)) : run.await = .commitTick := by
  obtain ⟨signal, impossible, -⟩ | ⟨-, advances⟩ := step_cases stepped
  · cases impossible
  · obtain ⟨result, -, -, advanced⟩ := advances.result
    generalize run.await = await at advanced ⊢
    cases advanced with
    | left reason => obtain ⟨⟨⟩, -⟩ | ⟨⟨⟩, -⟩ := reason
    | stayed childHandles other stays => exact (other rfl).elim
    | carried childHandles session other cycle fits => exact (other rfl).elim
    | ended => rfl
    | handedOver => rfl

/-- What stands at a boundary of a run is what its events left. -/
private theorem boundary_bytes {workflowId : String} {input : AgentInput} {events earlier later : List Event}
    {run before : Run} {effects sent : List Effect} {suggested : Bool}
    (ran : workflow.run (begin workflowId input).1 events = some (run, effects))
    (split : events = earlier ++ .reply .committed suggested :: later)
    (reached : workflow.run (begin workflowId input).1 earlier = some (before, sent)) :
    bareBytes before.input + CARRYOVER_FRAME_BYTES + stateBytes before.bumpTick.state =
      bareBytes input + CARRYOVER_FRAME_BYTES + (queuedBy input earlier).bytes +
        itemsBytes AgentRef.toJson before.state.childHandles + cursorBytes before.bumpTick.state := by
  obtain ⟨middle, first, rest, there, onward, -⟩ := workflow.run_append.mp (split ▸ ran)
  cases reached.symm.trans there
  obtain ⟨next, now, more, stepped, -⟩ := workflow.run_cons.mp onward
  have same := run_input reached
  rw [(begin_input workflowId input).1] at same
  have queues := run_queues reached
  have queued : queuedBy input earlier = ⟨mailOf before.state, before.state.retirementRequest⟩ := by
    rw [queues.mail, queues.retirement (.inl (by rw [committing stepped]; rfl))]
  rw [bareBytes_congr same, queued]
  unfold stateBytes
  simp only [Nat.add_assoc]
  rfl

/-- Every input handed over fits the limit exactly when what came in since the last wake leaves room
at every boundary hand-over; the mid-cycle site never breaks it. -/
theorem handovers_fit_iff (workflowId : String) (input : AgentInput) (events : List Event) (run : Run)
    (effects : List Effect) (ran : workflow.run (begin workflowId input).1 events = some (run, effects)) :
    (∀ next, Effect.continueAsNew next ∈ effects → next.toJson.byteLength ≤ CAN_PAYLOAD_HARD_BYTES) ↔
      Roomy workflowId input events := by
  have each : (∀ next, Effect.continueAsNew next ∈ effects → next.toJson.byteLength ≤ CAN_PAYLOAD_HARD_BYTES) ↔
      ∀ effect ∈ effects, Fits effect :=
    ⟨fun fits effect member next same => fits next (same ▸ member), fun fits next member => fits _ member next rfl⟩
  rw [each, workflow.run_outputs_iff (fun _ _ _ _ => step_fits_iff) ran, workflow.along_iff_splits ran]
  constructor
  · intro along earlier later before sent split reached
    rw [← boundary_bytes ran split reached]
    exact along earlier _ later before sent split reached rfl
  · rintro room earlier event later before sent split reached rfl
    rw [boundary_bytes ran split reached]
    exact room earlier later before sent split reached

end Fits

section Webhook

/-- A text of `length` letters. -/
def letters (length : Nat) : String := String.ofList (List.replicate length 'a')

theorem letters_bytes (length : Nat) : length < Json.utf8Length (Json.renderString (letters length)) := by
  have size := Json.length_lt_renderString (letters length)
  rwa [letters, String.toList_ofList, List.length_replicate] at size

/-- A cycle that receives one webhook before it idles. -/
def webhookCycle (payload : Json) : List Event :=
  [.timerFired, .reply (.seedBuilt ⟨.new "" ⟨0⟩ none, [], {}⟩) false, .signal (.externalSignal (.external "webhook" payload)),
    .reply (.decided (.idle ⟨0⟩)) false, .reply .logged false, .reply .committed true]

theorem webhook_handed_over (payload : Json) : ∃ run effects next,
    workflow.run (begin "root" (.newForTest ⟨⟨0⟩⟩ ⟨⟨1⟩⟩ "root")).1 (webhookCycle payload) = some (run, effects) ∧
      Effect.continueAsNew next ∈ effects ∧ payload.byteLength ≤ next.toJson.byteLength := by
  let bare := AgentInput.newForTest ⟨⟨0⟩⟩ ⟨⟨1⟩⟩ "root"
  let state : AgentWorkflow :=
    { pendingTriggers := [.external "webhook" payload], nextWake := some ⟨0⟩, cumulativeTriggersObserved := 1, tick := 1 }
  refine ⟨_, _, { bare with carryover := some state.encodeCarryover }, rfl, ?_, ?_⟩
  · exact List.mem_append_right _ (List.mem_append_right _ (List.mem_append_right _
      (List.mem_append_right _ (List.mem_append_right _ (List.mem_append_left _ List.mem_cons_self)))))
  · have size := carrying_bytes bare state.encodeCarryover
    rw [carryover_bytes] at size
    have queued : payload.byteLength ≤ itemsBytes Trigger.toJson (mailOf state).triggers := by
      simp only [state, mailOf, itemsBytes, List.map_cons, List.map_nil, List.sum_cons, Trigger.toJson, Json.byteLength, Json.render,
        Json.renderMembers, Json.utf8Length_append]
      omega
    unfold stateBytes Queue.bytes at size
    dsimp only at size
    omega

/-- A webhook of 1.5 MiB that arrives during a cycle: the boundary hands it over unmeasured. -/
theorem large_webhook_handed_over : ∃ run effects next,
    (AgentInput.newForTest ⟨⟨0⟩⟩ ⟨⟨1⟩⟩ "root").toJson.byteLength ≤ CAN_PAYLOAD_HARD_BYTES ∧
      workflow.run (begin "root" (.newForTest ⟨⟨0⟩⟩ ⟨⟨1⟩⟩ "root")).1 (webhookCycle (.string (letters CAN_PAYLOAD_HARD_BYTES))) =
        some (run, effects) ∧
      Effect.continueAsNew next ∈ effects ∧ ¬ next.toJson.byteLength ≤ CAN_PAYLOAD_HARD_BYTES := by
  obtain ⟨run, effects, next, ran, handed, size⟩ := webhook_handed_over (.string (letters CAN_PAYLOAD_HARD_BYTES))
  have long : CAN_PAYLOAD_HARD_BYTES < (Json.string (letters CAN_PAYLOAD_HARD_BYTES)).byteLength := letters_bytes _
  exact ⟨run, effects, next, by decide +kernel, ran, handed, by omega⟩

/-- A short webhook has room. -/
private theorem webhookCycle_roomy : Roomy "root" (.newForTest ⟨⟨0⟩⟩ ⟨⟨1⟩⟩ "root") (webhookCycle .null) := by
  intro earlier later run effects split reached
  have position : earlier = (webhookCycle .null).take 5 := by
    have length := congrArg List.length split
    match earlier, length, split with
    | [_, _, _, _, _], _, split =>
      cases split
      rfl
    | _ :: _ :: _ :: _ :: _ :: _ :: _, length, _ =>
      simp only [webhookCycle, List.length_append, List.length_cons, List.length_nil] at length
      omega
  subst position
  cases reached
  decide +kernel

theorem handovers_fit_iff_null : ∃ run effects next,
    workflow.run (begin "root" (.newForTest ⟨⟨0⟩⟩ ⟨⟨1⟩⟩ "root")).1 (webhookCycle .null) = some (run, effects) ∧
      Effect.continueAsNew next ∈ effects ∧ next.toJson.byteLength ≤ CAN_PAYLOAD_HARD_BYTES := by
  obtain ⟨run, effects, next, ran, handed, -⟩ := webhook_handed_over .null
  exact ⟨run, effects, next, ran, handed, (handovers_fit_iff _ _ _ _ _ ran).mpr webhookCycle_roomy next handed⟩

end Webhook

end Coral.Temporal.Proofs

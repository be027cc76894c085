import Coral.Proofs.GraphStep
import Coral.Proofs.SignalConservation

/-! What becomes of every signal that is sent to a graph's workflows, by one another or from
outside: it is delivered once, or lost, or on its way; what is delivered is drained in order; and
a retire is held until another overwrites it or the workflow acts on it. -/

namespace Coral.Temporal.Proofs
open Coral.Library

/-- A step of the graph, or a client's signal. -/
inductive PostEvent where
  | inside (event : GraphEvent)
  | outside (target : String) (signal : Signal)

inductive Posting where
  | sent (message : SentSignal)
  | delivered (message : SentSignal)
  | lost (message : SentSignal)
  | acted (workflowId : String) (event : Event) (effects : List Effect)

/-- The messages that a step's effects send, from this number on. -/
def messagesFrom : Nat → List Effect → List SentSignal
  | _, [] => []
  | sent, .signalWorkflow target signal :: effects => ⟨sent, target, signal⟩ :: messagesFrom (sent + 1) effects
  | sent, _ :: effects => messagesFrom sent effects

def postings (graph : Graph) : GraphEvent → List Posting
  | .act workflowId event =>
    match (graph.workflows workflowId).bind (·.step event) with
    | some (_, effects) => .acted workflowId event effects :: (messagesFrom graph.sent effects).map .sent
    | none => []
  | .register _ => []
  | .deliver id => (graph.flight.find? (·.id == id)).toList.map .delivered
  | .lose id => (graph.flight.filter (·.id == id)).map .lost

def post : Machine Graph PostEvent Posting := ⟨fun graph event =>
  match event with
  | .inside event => (graph.step event).map fun after => (after, postings graph event)
  | .outside target signal => some (graph.send target signal, [.sent ⟨graph.sent, target, signal⟩])⟩

def sentOf (posted : List Posting) : List SentSignal := posted.filterMap fun
  | .sent message => some message
  | _ => none

def deliveredOf (posted : List Posting) : List SentSignal := posted.filterMap fun
  | .delivered message => some message
  | _ => none

def lostOf (posted : List Posting) : List SentSignal := posted.filterMap fun
  | .lost message => some message
  | _ => none

/-- All that a workflow has asked for, in order. -/
def effectsOf (workflowId : String) (posted : List Posting) : List Effect := posted.flatMap fun
  | .acted other _ effects => if other = workflowId then effects else []
  | _ => []

/-- The mail that has come to a workflow, in order. -/
def mailTo (workflowId : String) (posted : List Posting) : Mail :=
  receivedMail (((deliveredOf posted).filter (·.target = workflowId)).map fun message => .signal message.signal)

/-- The reasons of the retires that have come to a workflow, in order. -/
def retiresTo (workflowId : String) (posted : List Posting) : List String := (deliveredOf posted).filterMap fun message =>
  if message.target = workflowId then match message.signal with
    | .retire reason => some reason
    | _ => none
  else none

/-- What a workflow still has to drain. -/
def pendingAt (graph : Graph) (workflowId : String) : Mail :=
  match graph.workflows workflowId with
  | some run => mailOf run.state
  | none => {}

/-- The retire that a workflow holds. -/
def requestAt (graph : Graph) (workflowId : String) : Option String :=
  (graph.workflows workflowId).bind (·.state.retirementRequest)

section Speaking

variable {ctx : Context} {event : Event} {effects : List Effect}

/-- Neither a signal nor the start of a workflow. -/
def silent : Effect → Bool
  | .signalWorkflow _ _ | .startChild _ _ => false
  | _ => true

/-- Whom the answer to a `persist_output` has the workflow tell, and of what. -/
def reports (ctx : Context) : Event → List (String × Trigger)
  | .reply (.outputPersisted (some outputId) _) _ => (ctx.input.parentHandle.map fun parent =>
      (parent.workflowId, .childOutput ⟨ctx.workflowId, ctx.input.agentId⟩ ctx.input.agentName outputId)).toList
  | _ => []

/-- What one step may have to say to another workflow. -/
inductive Speaks (ctx : Context) (event : Event) : Effect → Prop where
  | retire (target reason : String) (other : reports ctx event = []) : Speaks ctx event (.signalWorkflow target (.retire reason))
  | output {target : String} {trigger : Trigger} (reported : reports ctx event = [(target, trigger)]) :
      Speaks ctx event (.signalWorkflow target (.externalSignal trigger))
  | retired {parent : ParentRef} (reason : String) (named : ctx.input.parentHandle = some parent)
      (other : reports ctx event = []) : Speaks ctx event (.signalWorkflow parent.workflowId
        (.externalSignal (.childRetired ⟨ctx.workflowId, ctx.input.agentId⟩ ctx.input.agentName reason)))
  | start (childAgentId : AgentId) (agentName : String) (mandate : Mandate) (other : reports ctx event = []) :
      Speaks ctx event (.startChild (agentWorkflowId ctx.input.graphId.toString childAgentId.toString)
        (buildChildInput ctx.workflowId ctx.input.graphId childAgentId agentName mandate ctx.input.cfg))

/-- A step says nothing, or one thing alone. -/
def SaysOnce (ctx : Context) (event : Event) (effects : List Effect) : Prop :=
  (∀ effect ∈ effects, silent effect = true) ∧ reports ctx event = [] ∨
    ∃ effect, effects = [effect] ∧ Speaks ctx event effect

theorem loopTop_silent (ctx : Context) (resume : Option Session) : ∀ effect ∈ (ctx.loopTop resume).2, silent effect = true := by
  unfold Context.loopTop
  split
  · simp [Context.retire, Context.schedule, silent]
  · unfold Context.waitForTick
    dsimp only
    split <;> simp [silent]
  · split <;> simp [Context.retire, Context.decideStep, Context.schedule, silent]

theorem continueAsNew_silent (ctx : Context) (next : AgentInput) :
    ∀ effect ∈ (ctx.continueAsNew next).2, silent effect = true := by
  unfold Context.continueAsNew emit
  rw [List.forall_mem_cons]
  exact ⟨rfl, loopTop_silent _ _⟩

theorem afterExecute_silent (ctx : Context) (session : Session) (step : UInt64) (action : Decision)
    (observation : Observation) (suggested : Bool) :
    ∀ effect ∈ (ctx.afterExecute session step action observation suggested).2, silent effect = true := by
  unfold Context.afterExecute
  dsimp only
  split
  · simp [emit, Context.commitTick, Context.schedule, silent]
  · split
    · split
      · simp [emit, Context.commitTick, Context.schedule, silent]
      · exact continueAsNew_silent _ _
    · simp [Context.decideStep, Context.schedule, silent]

theorem leaveGate_silent (ctx : Context) : ∀ effect ∈ ctx.leaveGate.2, silent effect = true := by
  unfold Context.leaveGate
  dsimp only
  split <;> simp [emit, Context.retire, Context.schedule, silent]

theorem executeAction_says {action : Decision} {executing : Executing} (asked : ctx.executeAction action = some (executing, effects))
    (other : reports ctx event = []) : SaysOnce ctx event effects := by
  cases action <;> cases asked
  case retireChild childRef reason => exact .inr ⟨_, rfl, .retire _ _ other⟩
  case replaceChild childRef newMandate => exact .inr ⟨_, rfl, .retire _ _ other⟩
  all_goals exact .inl ⟨by simp [silent], other⟩

theorem answer_says {executing next : Executing} {reply : Reply} {suggested : Bool} {childHandles : List AgentRef}
    (answered : ctx.answer executing reply = some (.asks childHandles (next, effects))) :
    SaysOnce ctx (.reply reply suggested) effects := by
  unfold Context.answer at answered
  split at answered <;> try split at answered
  all_goals cases answered
  · rename_i parent named
    exact .inr ⟨_, rfl, .output (by simp [reports, named])⟩
  · exact .inr ⟨_, rfl, .start _ _ _ rfl⟩
  · exact .inl ⟨by simp [silent], rfl⟩

theorem answer_reports {executing : Executing} {reply : Reply} {suggested : Bool} {answer : Answer}
    (answered : ctx.answer executing reply = some answer) (ends : ∀ childHandles request, answer ≠ .asks childHandles request) :
    reports ctx (.reply reply suggested) = [] := by
  unfold Context.answer at answered
  split at answered <;> try split at answered
  all_goals cases answered
  all_goals first
    | rfl
    | exact (ends _ _ rfl).elim
    | skip
  rename_i outputId _ _ unheard
  cases outputId with
  | none => rfl
  | some outputId =>
    cases named : ctx.input.parentHandle with
    | none => simp [reports, named]
    | some parent => exact (unheard _ _ rfl named).elim

/-- A step of a workflow says at most one thing, and says nothing of an output that was not persisted. -/
theorem step_says {run next : Run} (stepped : workflow.step run event = some (next, effects)) :
    SaysOnce run.toContext event effects := by
  change run.step event = some (next, effects) at stepped
  unfold Run.step at stepped
  split at stepped
  case h_1 signal =>
    split at stepped
    · cases stepped
    · cases stepped
      exact .inl ⟨by simp, rfl⟩
  case h_2 =>
    split at stepped
    · split at stepped
      · have said := congrArg Prod.snd (Option.some.inj stepped)
        subst said
        exact .inl ⟨leaveGate_silent _, rfl⟩
      · cases stepped
    · cases stepped
  case h_3 =>
    split at stepped
    · have said := congrArg Prod.snd (Option.some.inj stepped)
      subst said
      exact .inl ⟨leaveGate_silent _, rfl⟩
    · cases stepped
  case h_4 reply suggested =>
    unfold Context.resume at stepped
    split at stepped
    case h_3 session step action =>
      have said := congrArg Prod.snd (Option.some.inj stepped)
      subst said
      unfold Context.afterLog
      split
      · exact .inl ⟨by simp [Context.commitTick, Context.schedule, silent], rfl⟩
      · split
        · rename_i asked
          exact executeAction_says asked rfl
        · exact .inl ⟨by simp [Context.close, silent], rfl⟩
    case h_4 session step action executing =>
      obtain ⟨answer, answered, shape⟩ := Option.map_eq_some_iff.mp stepped
      cases answer with
      | asks childHandles request =>
        cases shape
        exact answer_says answered
      | observes childHandles observation =>
        have other := @answer_reports _ _ _ suggested _ answered (by simp)
        have said := congrArg Prod.snd shape
        subst said
        exact .inl ⟨afterExecute_silent _ _ _ _ _ _, other⟩
      | fails =>
        have other := @answer_reports _ _ _ suggested _ answered (by simp)
        cases shape
        exact .inl ⟨List.forall_mem_singleton.mpr rfl, other⟩
    case h_5 =>
      have said := congrArg Prod.snd (Option.some.inj stepped)
      subst said
      refine .inl ⟨?_, rfl⟩
      unfold Context.cycleBoundary
      dsimp only
      split
      · exact continueAsNew_silent _ _
      · exact loopTop_silent _ _
    case h_6 reason =>
      have said := congrArg Prod.snd (Option.some.inj stepped)
      subst said
      unfold Context.retired
      split
      · rename_i parent named
        exact .inr ⟨_, rfl, .retired _ named rfl⟩
      · exact .inl ⟨by simp [Context.close, silent], rfl⟩
    case h_13 => cases stepped
    all_goals
      cases stepped
      exact .inl ⟨List.forall_mem_singleton.mpr rfl, rfl⟩

end Speaking

section Performed

variable {graph : Graph} {effects : List Effect}

theorem performed_flight (graph : Graph) (effects : List Effect) :
    (effects.foldl Graph.perform graph).flight = graph.flight ++ messagesFrom graph.sent effects ∧
      (effects.foldl Graph.perform graph).sent = graph.sent + (messagesFrom graph.sent effects).length := by
  induction effects generalizing graph with
  | nil => exact ⟨(List.append_nil _).symm, rfl⟩
  | cons effect effects ih =>
    obtain ⟨flight, sent⟩ := ih (graph.perform effect)
    rw [List.foldl_cons, flight, sent]
    cases effect with
    | signalWorkflow target signal =>
      have fits : (graph.perform (.signalWorkflow target signal)).sent = graph.sent + 1 := rfl
      have adds : (graph.perform (.signalWorkflow target signal)).flight = graph.flight ++ [⟨graph.sent, target, signal⟩] := rfl
      rw [fits, adds, messagesFrom, List.length_cons, List.append_assoc]
      exact ⟨rfl, by omega⟩
    | startChild workflowId input =>
      have same : (graph.perform (.startChild workflowId input)).flight = graph.flight ∧
          (graph.perform (.startChild workflowId input)).sent = graph.sent := by
        cases found : graph.workflows workflowId <;> simp [Graph.perform, found, Graph.setRun]
      rw [same.1, same.2]
      exact ⟨rfl, rfl⟩
    | _ => exact ⟨rfl, rfl⟩

theorem mem_messagesFrom {sent : Nat} {message : SentSignal} (member : message ∈ messagesFrom sent effects) :
    sent ≤ message.id ∧ message.id < sent + (messagesFrom sent effects).length ∧
      Effect.signalWorkflow message.target message.signal ∈ effects := by
  induction effects generalizing sent with
  | nil => cases member
  | cons effect effects ih =>
    cases effect with
    | signalWorkflow target signal =>
      rw [messagesFrom] at member ⊢
      rw [List.length_cons]
      rcases List.mem_cons.mp member with rfl | later
      · exact ⟨Nat.le_refl _, Nat.lt_add_of_pos_right (Nat.succ_pos _), List.mem_cons_self⟩
      · obtain ⟨low, high, asked⟩ := ih later
        exact ⟨by omega, by omega, List.mem_cons_of_mem _ asked⟩
    | _ =>
      obtain ⟨low, high, asked⟩ := ih member
      exact ⟨low, high, List.mem_cons_of_mem _ asked⟩

theorem messagesFrom_nodup (sent : Nat) (effects : List Effect) : ((messagesFrom sent effects).map (·.id)).Nodup := by
  induction effects generalizing sent with
  | nil => exact List.nodup_nil
  | cons effect effects ih =>
    cases effect with
    | signalWorkflow target signal =>
      rw [messagesFrom, List.map_cons, List.nodup_cons]
      refine ⟨?_, ih _⟩
      intro member
      obtain ⟨message, later, same⟩ := List.mem_map.mp member
      have above := (mem_messagesFrom later).1
      simp only at same
      omega
    | _ => exact ih sent

end Performed

@[simp] theorem sentOf_append (first second : List Posting) : sentOf (first ++ second) = sentOf first ++ sentOf second :=
  List.filterMap_append

@[simp] theorem deliveredOf_append (first second : List Posting) :
    deliveredOf (first ++ second) = deliveredOf first ++ deliveredOf second := List.filterMap_append

@[simp] theorem lostOf_append (first second : List Posting) : lostOf (first ++ second) = lostOf first ++ lostOf second :=
  List.filterMap_append

@[simp] theorem effectsOf_append (workflowId : String) (first second : List Posting) :
    effectsOf workflowId (first ++ second) = effectsOf workflowId first ++ effectsOf workflowId second :=
  List.flatMap_append

/-- What a kind of posting carries, among postings that are all of one kind. -/
theorem sentOf_sent (messages : List SentSignal) : sentOf (messages.map .sent) = messages ∧
    deliveredOf (messages.map .sent) = [] ∧ lostOf (messages.map .sent) = [] ∧
      ∀ workflowId, effectsOf workflowId (messages.map .sent) = [] := by
  induction messages with
  | nil => exact ⟨rfl, rfl, rfl, fun _ => rfl⟩
  | cons message messages ih =>
    obtain ⟨sent, delivered, lost, effects⟩ := ih
    exact ⟨congrArg (message :: ·) sent, delivered, lost, effects⟩

theorem sentOf_acted (workflowId : String) (event : Event) (effects : List Effect) (messages : List SentSignal) :
    sentOf (.acted workflowId event effects :: messages.map .sent) = messages ∧
      deliveredOf (.acted workflowId event effects :: messages.map .sent) = [] ∧
      lostOf (.acted workflowId event effects :: messages.map .sent) = [] ∧
      ∀ other, effectsOf other (.acted workflowId event effects :: messages.map .sent) =
        if workflowId = other then effects else [] := by
  obtain ⟨sent, delivered, lost, quiet⟩ := sentOf_sent messages
  refine ⟨sent, delivered, lost, fun other => ?_⟩
  change (if workflowId = other then effects else []) ++ effectsOf other (messages.map .sent) = _
  rw [quiet, List.append_nil]

theorem lostOf_lost (messages : List SentSignal) : lostOf (messages.map .lost) = messages ∧
    sentOf (messages.map .lost) = [] ∧ deliveredOf (messages.map .lost) = [] ∧
      ∀ workflowId, effectsOf workflowId (messages.map .lost) = [] := by
  induction messages with
  | nil => exact ⟨rfl, rfl, rfl, fun _ => rfl⟩
  | cons message messages ih =>
    obtain ⟨lost, sent, delivered, effects⟩ := ih
    exact ⟨congrArg (message :: ·) lost, sent, delivered, effects⟩

/-- Every message bears a number of its own, and is in one place: delivered, lost or on its way. -/
structure Accounted (graph : Graph) (posted : List Posting) : Prop where
  numbers : ((sentOf posted).map (·.id)).Nodup
  below : ∀ message ∈ sentOf posted, message.id < graph.sent
  whole : (sentOf posted).Perm (deliveredOf posted ++ lostOf posted ++ graph.flight)

theorem Accounted.sends {graph after : Graph} {posted more : List Posting} {messages : List SentSignal}
    (accounted : Accounted graph posted) (sent : sentOf more = messages) (delivered : deliveredOf more = [])
    (lost : lostOf more = []) (flight : after.flight = graph.flight ++ messages)
    (count : after.sent = graph.sent + messages.length) (distinct : (messages.map (·.id)).Nodup)
    (fresh : ∀ message ∈ messages, graph.sent ≤ message.id ∧ message.id < graph.sent + messages.length) :
    Accounted after (posted ++ more) where
  numbers := by
    rw [sentOf_append, sent, List.map_append, List.nodup_append]
    refine ⟨accounted.numbers, distinct, ?_⟩
    intro id earlier other later
    obtain ⟨first, member, rfl⟩ := List.mem_map.mp earlier
    obtain ⟨second, new, rfl⟩ := List.mem_map.mp later
    have under := accounted.below first member
    have above := (fresh second new).1
    omega
  below message member := by
    rw [sentOf_append, sent] at member
    rw [count]
    rcases List.mem_append.mp member with earlier | new
    · exact Nat.lt_add_right _ (accounted.below message earlier)
    · exact (fresh message new).2
  whole := by
    rw [sentOf_append, deliveredOf_append, lostOf_append, sent, delivered, lost, flight, List.append_nil, List.append_nil,
      ← List.append_assoc]
    exact accounted.whole.append_right messages

/-- The messages on their way have numbers of their own. -/
theorem Accounted.flight_nodup {graph : Graph} {posted : List Posting} (accounted : Accounted graph posted) :
    (graph.flight.map (·.id)).Nodup := by
  have all := (accounted.whole.map (·.id)).nodup_iff.mp accounted.numbers
  rw [List.map_append] at all
  exact (List.nodup_append.mp all).2.1

theorem find_unique {flight : List SentSignal} (distinct : (flight.map (·.id)).Nodup) {message : SentSignal} {id : Nat}
    (found : flight.find? (·.id == id) = some message) : flight.filter (·.id == id) = [message] := by
  induction flight with
  | nil => cases found
  | cons first flight ih =>
    rw [List.map_cons, List.nodup_cons] at distinct
    rw [List.find?_cons] at found
    split at found
    · rename_i here
      cases found
      rw [List.filter_cons, if_pos here, List.filter_eq_nil_iff.mpr]
      intro other member same
      apply distinct.1
      rw [eq_of_beq here, ← eq_of_beq same]
      exact List.mem_map_of_mem member
    · rename_i apart
      rw [List.filter_cons, apart]
      exact ih distinct.2 found

theorem Accounted.takes {graph after : Graph} {posted more : List Posting} {id : Nat}
    (accounted : Accounted graph posted) (sent : sentOf more = []) (count : after.sent = graph.sent)
    (flight : after.flight = graph.flight.filter (·.id != id))
    (taken : (deliveredOf more ++ lostOf more).Perm (graph.flight.filter (·.id == id))) :
    Accounted after (posted ++ more) where
  numbers := by
    rw [sentOf_append, sent, List.append_nil]
    exact accounted.numbers
  below message member := by
    rw [sentOf_append, sent, List.append_nil] at member
    rw [count]
    exact accounted.below message member
  whole := by
    rw [sentOf_append, deliveredOf_append, lostOf_append, sent, List.append_nil, flight]
    have split : (deliveredOf more ++ lostOf more ++ graph.flight.filter (·.id != id)).Perm graph.flight :=
      (taken.append_right _).trans (List.filter_append_perm (·.id == id) graph.flight)
    refine accounted.whole.trans ((split.symm.append_left _).trans ?_)
    rw [List.perm_iff_count]
    intro message
    simp only [List.count_append]
    omega

section Mail

variable {graph : Graph} {effects : List Effect}

theorem pendingAt_setRun (graph : Graph) (workflowId other : String) (run : Run) :
    pendingAt (graph.setRun workflowId run) other = if other = workflowId then mailOf run.state else pendingAt graph other := by
  unfold pendingAt
  rw [setRun_workflows]
  by_cases same : other = workflowId
  · rw [if_pos same, if_pos same]
  · rw [if_neg same, if_neg same]

/-- A child that a step starts has had no mail yet. -/
theorem step_starts {run next : Run} {event : Event} {workflowId : String} {input : AgentInput}
    (stepped : workflow.step run event = some (next, effects)) (started : Effect.startChild workflowId input ∈ effects) :
    input.carryover = none := by
  rcases step_says stepped with ⟨quiet, -⟩ | ⟨effect, rfl, speaks⟩
  · cases quiet _ started
  · obtain rfl := List.mem_singleton.mp started
    cases speaks
    rfl

/-- A workflow is left alone by what a step asks for, or started by it. -/
theorem performed_run (graph : Graph) (workflowId : String) :
    (effects.foldl Graph.perform graph).workflows workflowId = graph.workflows workflowId ∨
      graph.workflows workflowId = none ∧ ∃ input, Effect.startChild workflowId input ∈ effects ∧
        (effects.foldl Graph.perform graph).workflows workflowId = some (begin workflowId input).1 := by
  induction effects generalizing graph with
  | nil => exact .inl rfl
  | cons effect effects ih =>
    rw [List.foldl_cons]
    have performed : (graph.perform effect).workflows workflowId = graph.workflows workflowId ∨
        graph.workflows workflowId = none ∧ ∃ input, effect = .startChild workflowId input ∧
          (graph.perform effect).workflows workflowId = some (begin workflowId input).1 := by
      cases effect with
      | startChild other input =>
        cases found : graph.workflows other with
        | some run => exact .inl (by simp only [Graph.perform, found])
        | none =>
          simp only [Graph.perform, found, setRun_workflows]
          split
          · rename_i same
            subst same
            exact .inr ⟨found, input, rfl, rfl⟩
          · exact .inl rfl
      | _ => exact .inl rfl
    rcases ih (graph.perform effect) with kept | ⟨absent, input, later, begun⟩
    · rcases performed with same | ⟨absent, input, rfl, begun⟩
      · exact .inl (kept.trans same)
      · exact .inr ⟨absent, input, List.mem_cons_self, kept.trans begun⟩
    · rcases performed with same | ⟨-, other, -, there⟩
      · exact .inr ⟨same.symm.trans absent, input, List.mem_cons_of_mem _ later, begun⟩
      · rw [absent] at there
        cases there

theorem performed_pending (graph : Graph) (fresh : ∀ workflowId input, Effect.startChild workflowId input ∈ effects →
    input.carryover = none) (workflowId : String) :
    pendingAt (effects.foldl Graph.perform graph) workflowId = pendingAt graph workflowId := by
  unfold pendingAt
  rcases performed_run graph workflowId with same | ⟨absent, input, started, begun⟩
  · rw [same]
  · rw [absent, begun]
    change mailOf (begin workflowId input).1.state = {}
    rw [(begin_conserves workflowId input).2.1]
    unfold carriedMail
    rw [fresh workflowId input started]

theorem mailTo_append (workflowId : String) (first second : List Posting) :
    mailTo workflowId (first ++ second) = mailTo workflowId first ++ mailTo workflowId second := by
  unfold mailTo
  rw [deliveredOf_append, List.filter_append, List.map_append, receivedMail_append]

/-- What a workflow drains, and still has, is what it began with and what has come to it since. -/
def Drained (start graph : Graph) (posted : List Posting) : Prop :=
  ∀ workflowId, drainedMail (effectsOf workflowId posted) ++ pendingAt graph workflowId =
    pendingAt start workflowId ++ mailTo workflowId posted

theorem receivedMail_inside {event : Event} (inside : ∀ signal, event ≠ .signal signal) : receivedMail [event] = {} := by
  cases event with
  | signal signal => exact (inside signal rfl).elim
  | _ => rfl

theorem receivedMail_cons (event : Event) (events : List Event) :
    receivedMail (event :: events) = receivedMail [event] ++ receivedMail events :=
  receivedMail_append [event] events

/-- Where nothing is delivered and nothing drained. -/
theorem Drained.rests {start graph after : Graph} {posted more : List Posting} (drained : Drained start graph posted)
    (quiet : ∀ workflowId, effectsOf workflowId more = []) (undelivered : deliveredOf more = [])
    (same : after.workflows = graph.workflows) : Drained start after (posted ++ more) := by
  intro workflowId
  have pending : pendingAt after workflowId = pendingAt graph workflowId := by
    unfold pendingAt
    rw [same]
  have mail : mailTo workflowId more = {} := by
    unfold mailTo
    rw [undelivered]
    rfl
  rw [effectsOf_append, quiet, List.append_nil, mailTo_append, mail, Mail.append_empty, pending]
  exact drained workflowId

theorem Drained.acts {start graph : Graph} {posted : List Posting} {workflowId : String} {event : Event} {run next : Run}
    (drained : Drained start graph posted) (inside : ∀ signal, event ≠ .signal signal)
    (running : graph.workflows workflowId = some run) (stepped : workflow.step run event = some (next, effects)) :
    Drained start (effects.foldl Graph.perform (graph.setRun workflowId next))
      (posted ++ .acted workflowId event effects :: (messagesFrom graph.sent effects).map .sent) := by
  intro other
  obtain ⟨-, delivered, -, asked⟩ := sentOf_acted workflowId event effects (messagesFrom graph.sent effects)
  have mail : mailTo other (.acted workflowId event effects :: (messagesFrom graph.sent effects).map .sent) = {} := by
    unfold mailTo
    rw [delivered]
    rfl
  have earlier := drained other
  rw [effectsOf_append, mailTo_append, mail, Mail.append_empty, asked,
    performed_pending _ (fun child input started => step_starts stepped started), pendingAt_setRun, ← earlier]
  by_cases same : workflowId = other
  · subst same
    obtain ⟨kept, -⟩ := step_mail stepped
    rw [receivedMail_inside inside, Mail.append_empty] at kept
    rw [if_pos rfl, if_pos rfl, drainedMail_append, Mail.append_assoc, kept]
    unfold pendingAt
    rw [running]
  · rw [if_neg same, if_neg (Ne.symm same), List.append_nil]

theorem Drained.receives {start graph : Graph} {posted : List Posting} {message : SentSignal} {run : Run}
    {flight : List SentSignal} (drained : Drained start graph posted)
    (running : graph.workflows message.target = some run) :
    Drained start { graph.setRun message.target { run with state := run.state.receive message.signal } with flight }
      (posted ++ [.delivered message]) := by
  intro other
  have earlier := drained other
  have pending : pendingAt { graph.setRun message.target { run with state := run.state.receive message.signal } with flight }
      other = if other = message.target then mailOf (run.state.receive message.signal) else pendingAt graph other :=
    pendingAt_setRun _ _ _ _
  have mail : mailTo other [.delivered message] =
      if message.target = other then receivedMail [.signal message.signal] else {} := by
    unfold mailTo
    rw [show deliveredOf [.delivered message] = [message] from rfl, List.filter_cons]
    by_cases same : message.target = other
    · rw [if_pos same, if_pos (decide_eq_true same)]
      rfl
    · rw [if_neg same, if_neg (by simpa using same)]
      rfl
  rw [effectsOf_append, mailTo_append, mail, pending, show effectsOf other [.delivered message] = [] from rfl,
    List.append_nil, ← Mail.append_assoc, ← earlier]
  by_cases same : message.target = other
  · subst same
    rw [if_pos rfl, if_pos rfl, receive_mail, Mail.append_assoc]
    unfold pendingAt
    rw [running]
  · rw [if_neg same, if_neg (Ne.symm same), Mail.append_empty]

end Mail

section Requests

variable {graph : Graph} {effects : List Effect}

/-- Among the effects is the workflow's retirement, for this reason. -/
def Retires (effects : List Effect) (reason : String) : Prop :=
  ∃ fsHandle, Effect.activity (.persistRetirement fsHandle reason) ∈ effects

/-- The request is kept, or the workflow goes to retire on it. -/
def KeepsRequest (request : Option String) (result : Run × List Effect) : Prop :=
  result.1.state.retirementRequest = request ∨ ∃ reason, request = some reason ∧ Retires result.2 reason

theorem loopTop_keeps (ctx : Context) (resume : Option Session) :
    KeepsRequest ctx.state.retirementRequest (ctx.loopTop resume) := by
  unfold Context.loopTop
  split
  · exact .inl rfl
  · exact .inl rfl
  · split
    · rename_i reason request
      exact .inr ⟨reason, request, _, List.mem_singleton_self _⟩
    · exact .inl rfl

theorem begin_keeps (workflowId : String) (input : AgentInput) :
    KeepsRequest (input.carryover.bind (·.retirementRequest)) (begin workflowId input) := by
  unfold begin
  cases input.carryover with
  | none => exact loopTop_keeps _ _
  | some carryover => exact loopTop_keeps _ _

theorem continueAsNew_keeps {ctx : Context} {next : AgentInput} {request : Option String}
    (carried : next.carryover.bind (·.retirementRequest) = request) : KeepsRequest request (ctx.continueAsNew next) := by
  subst carried
  rcases begin_keeps ctx.workflowId next with same | ⟨reason, held, fsHandle, asked⟩
  · exact .inl same
  · exact .inr ⟨reason, held, fsHandle, List.mem_cons_of_mem _ asked⟩

theorem advances_keeps {ctx : Context} {event : Event} {await : Await} {next : Run} {effects : List Effect}
    (advances : Advances ctx event await (next, effects)) : KeepsRequest ctx.state.retirementRequest (next, effects) := by
  obtain ⟨result, rfl, rfl, advanced⟩ := advances.result
  cases advanced with
  | left reason =>
    unfold Context.leaveGate
    dsimp only
    split
    · rename_i reason request
      exact .inr ⟨reason, request, _, List.mem_cons_of_mem _ (List.mem_singleton_self _)⟩
    · rename_i request
      exact .inl request.symm
  | stayed childHandles other stays => exact .inl rfl
  | carried childHandles session other cycle fits => exact continueAsNew_keeps rfl
  | ended => exact loopTop_keeps _ _
  | handedOver => exact continueAsNew_keeps rfl

theorem Retires.append {first : List Effect} {reason : String} (retires : Retires first reason) (second : List Effect) :
    Retires (first ++ second) reason := by
  obtain ⟨fsHandle, asked⟩ := retires
  exact ⟨fsHandle, List.mem_append_left _ asked⟩

/-- The last retire that has come to a workflow is held still, or the workflow has gone to retire on one that came. -/
def Heeded (start graph : Graph) (posted : List Posting) : Prop :=
  ∀ workflowId, requestAt graph workflowId = ((requestAt start workflowId).toList ++ retiresTo workflowId posted).getLast? ∨
    ∃ reason ∈ (requestAt start workflowId).toList ++ retiresTo workflowId posted, Retires (effectsOf workflowId posted) reason

theorem retiresTo_append (workflowId : String) (first second : List Posting) :
    retiresTo workflowId (first ++ second) = retiresTo workflowId first ++ retiresTo workflowId second := by
  unfold retiresTo
  rw [deliveredOf_append, List.filterMap_append]

/-- Where nothing is delivered, what is held is kept or acted on. -/
theorem Heeded.goesOn {start graph after : Graph} {posted more : List Posting} (heeded : Heeded start graph posted)
    (undelivered : deliveredOf more = []) (kept : ∀ workflowId, requestAt after workflowId = requestAt graph workflowId ∨
      ∃ reason, requestAt graph workflowId = some reason ∧ Retires (effectsOf workflowId more) reason) :
    Heeded start after (posted ++ more) := by
  intro workflowId
  have none_new : retiresTo workflowId more = [] := by
    unfold retiresTo
    rw [undelivered, List.filterMap_nil]
  rw [retiresTo_append, none_new, List.append_nil, effectsOf_append]
  rcases heeded workflowId with last | ⟨reason, came, retires⟩
  · rcases kept workflowId with same | ⟨reason, held, fsHandle, asked⟩
    · exact .inl (same.trans last)
    · exact .inr ⟨reason, List.mem_of_getLast? (last.symm.trans held), fsHandle, List.mem_append_right _ asked⟩
  · exact .inr ⟨reason, came, retires.append _⟩

theorem requestAt_setRun (graph : Graph) (workflowId other : String) (run : Run) :
    requestAt (graph.setRun workflowId run) other =
      if other = workflowId then run.state.retirementRequest else requestAt graph other := by
  unfold requestAt
  rw [setRun_workflows]
  split <;> rfl

theorem performed_request (graph : Graph) (fresh : ∀ workflowId input, Effect.startChild workflowId input ∈ effects →
    input.carryover = none) (workflowId : String) :
    requestAt (effects.foldl Graph.perform graph) workflowId = requestAt graph workflowId := by
  unfold requestAt
  rcases performed_run graph workflowId with same | ⟨absent, input, started, begun⟩
  · rw [same]
  · rw [absent, begun]
    have kept := begin_keeps workflowId input
    rw [fresh workflowId input started] at kept
    rcases kept with same | ⟨reason, held, -⟩
    · exact same
    · cases held

theorem Heeded.acts {start graph : Graph} {posted : List Posting} {workflowId : String} {event : Event} {run next : Run}
    (heeded : Heeded start graph posted) (inside : ∀ signal, event ≠ .signal signal)
    (running : graph.workflows workflowId = some run) (stepped : workflow.step run event = some (next, effects)) :
    Heeded start (effects.foldl Graph.perform (graph.setRun workflowId next))
      (posted ++ .acted workflowId event effects :: (messagesFrom graph.sent effects).map .sent) := by
  obtain ⟨-, delivered, -, asked⟩ := sentOf_acted workflowId event effects (messagesFrom graph.sent effects)
  refine heeded.goesOn delivered fun other => ?_
  rw [performed_request _ (fun child input started => step_starts stepped started), requestAt_setRun, asked]
  by_cases same : other = workflowId
  · subst same
    rw [if_pos rfl, if_pos rfl]
    unfold requestAt
    rw [running]
    obtain ⟨signal, here, -⟩ | ⟨-, advances⟩ := step_cases stepped
    · exact (inside signal here).elim
    · exact advances_keeps advances
  · rw [if_neg same]
    exact .inl rfl

theorem Heeded.receives {start graph : Graph} {posted : List Posting} {message : SentSignal} {run : Run}
    {flight : List SentSignal} (heeded : Heeded start graph posted)
    (running : graph.workflows message.target = some run) :
    Heeded start { graph.setRun message.target { run with state := run.state.receive message.signal } with flight }
      (posted ++ [.delivered message]) := by
  intro other
  have held : requestAt { graph.setRun message.target { run with state := run.state.receive message.signal } with flight }
      other = if other = message.target then (run.state.receive message.signal).retirementRequest
        else requestAt graph other := requestAt_setRun _ _ _ _
  rw [retiresTo_append, effectsOf_append, show effectsOf other [.delivered message] = [] from rfl, List.append_nil, held,
    ← List.append_assoc]
  by_cases same : other = message.target
  · subst same
    rw [if_pos rfl]
    have came := heeded message.target
    unfold requestAt at came
    rw [running] at came
    cases signal : message.signal with
    | retire reason =>
      have new : retiresTo message.target [.delivered message] = [reason] := by
        simp [retiresTo, deliveredOf, signal]
      rw [new, List.getLast?_concat]
      exact .inl rfl
    | _ =>
      have none_new : retiresTo message.target [.delivered message] = [] := by
        simp [retiresTo, deliveredOf, signal]
      rw [none_new, List.append_nil]
      exact came
  · have none_new : retiresTo other [.delivered message] = [] := by
      simp [retiresTo, deliveredOf, Ne.symm same]
    rw [if_neg same, none_new, List.append_nil]
    exact heeded other

end Requests

theorem postings_acted {graph : Graph} {workflowId : String} {event : Event} {run next : Run} {effects : List Effect}
    (running : graph.workflows workflowId = some run) (stepped : workflow.step run event = some (next, effects)) :
    postings graph (.act workflowId event) =
      .acted workflowId event effects :: (messagesFrom graph.sent effects).map .sent := by
  have there : (graph.workflows workflowId).bind (·.step event) = some (next, effects) := by
    rw [running]
    exact stepped
  simp only [postings, there]

theorem postings_delivered {graph : Graph} {id : Nat} {message : SentSignal}
    (found : graph.flight.find? (·.id == id) = some message) : postings graph (.deliver id) = [.delivered message] := by
  simp only [postings, found, Option.toList_some, List.map_cons, List.map_nil]

theorem run_accounted {start final : Graph} {events : List PostEvent} {posted : List Posting}
    (empty : start.flight = []) (ran : post.run start events = some (final, posted)) :
    Accounted final posted ∧ Drained start final posted ∧ Heeded start final posted := by
  refine post.history_invariant (fun _ graph posted => Accounted graph posted ∧ Drained start graph posted ∧
    Heeded start graph posted) ?_ ?_ ran
  · refine ⟨⟨List.nodup_nil, fun message member => absurd member List.not_mem_nil, ?_⟩, fun workflowId => ?_,
      fun workflowId => .inl ?_⟩
    · rw [empty]
      exact .refl _
    · exact (Mail.append_empty _).symm
    · rw [show retiresTo workflowId [] = [] from rfl, List.append_nil]
      cases requestAt start workflowId <;> rfl
  · intro earlier graph posted event after more held answered
    obtain ⟨accounted, drained, heeded⟩ := held
    cases event with
    | outside target signal =>
      cases answered
      refine ⟨?_, drained.rests (fun _ => rfl) rfl rfl, heeded.goesOn rfl fun _ => .inl rfl⟩
      refine @Accounted.sends graph _ posted _ [⟨graph.sent, target, signal⟩] accounted rfl rfl rfl rfl rfl
        (List.pairwise_singleton _ _) ?_
      rw [List.forall_mem_singleton]
      exact ⟨Nat.le_refl _, Nat.lt_succ_self _⟩
    | inside event =>
      obtain ⟨next, moved, whole⟩ := Option.map_eq_some_iff.mp answered
      obtain ⟨rfl, rfl⟩ := Prod.mk.inj whole
      cases graph_changes moved with
      | @acted workflowId event run next effects inside running stepped launchable =>
        rw [postings_acted running stepped]
        obtain ⟨flight, count⟩ := performed_flight (graph.setRun workflowId next) effects
        obtain ⟨sent, delivered, lost, -⟩ := sentOf_acted workflowId event effects (messagesFrom graph.sent effects)
        exact ⟨accounted.sends sent delivered lost flight count (messagesFrom_nodup _ _) fun message member =>
          ⟨(mem_messagesFrom member).1, (mem_messagesFrom member).2.1⟩, drained.acts inside running stepped,
          heeded.acts inside running stepped⟩
      | registered agentId =>
        exact ⟨@Accounted.sends graph _ posted [] [] accounted rfl rfl rfl (List.append_nil _).symm rfl List.nodup_nil
          (fun _ member => absurd member List.not_mem_nil), @Drained.rests start graph _ posted [] drained (fun _ => rfl) rfl rfl,
          @Heeded.goesOn start graph _ posted [] heeded rfl fun _ => .inl rfl⟩
      | @delivered id message run sent found running open_ =>
        rw [postings_delivered found]
        refine ⟨accounted.takes rfl rfl rfl ?_, drained.receives running, heeded.receives running⟩
        rw [find_unique accounted.flight_nodup found]
        exact .refl _
      | lost id =>
        obtain ⟨lost, sent, delivered, quiet⟩ := lostOf_lost (graph.flight.filter (·.id == id))
        refine ⟨accounted.takes sent rfl rfl ?_, drained.rests quiet delivered rfl,
          heeded.goesOn delivered fun _ => .inl rfl⟩
        rw [show postings graph (.lose id) = (graph.flight.filter (·.id == id)).map .lost from rfl, lost, delivered]
        exact .refl _

/-- Whatever the order of the steps, and whatever is lost, each signal that was sent was delivered once, or lost, or is
on its way. Of triggers, overrides and patches, a workflow has drained, each in the order of delivery, what it no longer
has; of retires, which overwrite one another, it holds the last, unless it has gone to retire on one. -/
theorem signals_accounted {start final : Graph} {events : List PostEvent} {posted : List Posting}
    (empty : start.flight = []) (ran : post.run start events = some (final, posted)) :
    ((sentOf posted).map (·.id)).Nodup ∧
      (sentOf posted).Perm (deliveredOf posted ++ lostOf posted ++ final.flight) ∧
      ∀ workflowId, drainedMail (effectsOf workflowId posted) ++ pendingAt final workflowId =
        pendingAt start workflowId ++ mailTo workflowId posted ∧
      (requestAt final workflowId = ((requestAt start workflowId).toList ++ retiresTo workflowId posted).getLast? ∨
        ∃ reason ∈ (requestAt start workflowId).toList ++ retiresTo workflowId posted,
          Retires (effectsOf workflowId posted) reason) := by
  obtain ⟨accounted, drained, heeded⟩ := run_accounted empty ran
  exact ⟨accounted.numbers, accounted.whole, fun workflowId => ⟨drained workflowId, heeded workflowId⟩⟩

section Examples

private def lone : AgentInput := AgentInput.newForTest ⟨⟨0⟩⟩ ⟨⟨1⟩⟩ "root"

private def loneId : String := agentWorkflowId (GraphId.toString ⟨⟨0⟩⟩) (AgentId.toString ⟨⟨1⟩⟩)

private def fourSignals : List PostEvent :=
  [.outside loneId (.externalSignal (.external "webhook" .null)), .outside loneId (.humanOverride ⟨.null⟩),
    .outside loneId (.retire "idle"), .outside loneId (.retire "superseded"),
    .inside (.lose 1), .inside (.deliver 3), .inside (.deliver 2), .inside (.deliver 0), .inside (.act loneId .woken)]

/-- Of four signals from outside one is lost, one is overwritten, and the agent retires on another. -/
theorem signals_accounted_lost : ∃ final posted, post.run (Graph.start ⟨⟨0⟩⟩ [lone]) fourSignals = some (final, posted) ∧
    (sentOf posted).Perm (deliveredOf posted ++ lostOf posted ++ final.flight) ∧ (sentOf posted).length = 4 ∧
    (drainedMail (effectsOf loneId posted)).triggers = [.external "webhook" .null] ∧
    retiresTo loneId posted = ["superseded", "idle"] ∧ requestAt final loneId = none := by
  have answered : (post.run (Graph.start ⟨⟨0⟩⟩ [lone]) fourSignals).map (fun ended => ((sentOf ended.2).length,
      (drainedMail (effectsOf loneId ended.2)).triggers, retiresTo loneId ended.2, requestAt ended.1 loneId)) =
      some (4, [.external "webhook" .null], ["superseded", "idle"], none) := by rfl
  obtain ⟨⟨final, posted⟩, ran, ended⟩ := Option.map_eq_some_iff.mp answered
  simp only [Prod.mk.injEq] at ended
  obtain ⟨sent, drained, retires, request⟩ := ended
  exact ⟨final, posted, ran, (signals_accounted rfl ran).2.1, sent, drained, retires, request⟩

end Examples

end Coral.Temporal.Proofs

import Coral.Proofs.WorkflowInvariant
import Coral.Temporal.FileActivities

/-! One action in execution: from its first request to the reply that finishes it, with the
signals that arrive meanwhile. -/

namespace Coral.Temporal.Proofs
open Coral.Library

variable {session : Session} {step : UInt64} {action : Decision}

theorem loopTop_idle (ctx : Context) (resume : Option Session) (executing : Executing) :
    (ctx.loopTop resume).1.await ≠ .executeAction session step action executing := by
  intro waits
  unfold Context.loopTop at waits
  split at waits
  · cases waits
  · cases waits
  · split at waits <;> cases waits

/-- An observation is pushed at the end of its action, and never leads to another at once. -/
theorem afterExecute_idle (ctx : Context) (earlier : Session) (index : UInt64) (done : Decision)
    (observation : Observation) (suggested : Bool) (executing : Executing) :
    (ctx.afterExecute earlier index done observation suggested).1.await ≠
      .executeAction session step action executing := by
  unfold Context.afterExecute
  simp only
  split
  · nofun
  · split
    · split
      · nofun
      · exact loopTop_idle _ _ _
    · nofun

/-- What happens to an action that stays in execution: a signal is received, or a reply
leads to its next request. -/
theorem step_executing {run next : Run} {event : Event} {effects : List Effect} {executing then_ : Executing}
    (waits : run.await = .executeAction session step action executing)
    (stepped : workflow.step run event = some (next, effects))
    (stays : next.await = .executeAction session step action then_) :
    (∃ signal, event = .signal signal ∧ next = { run with state := run.state.receive signal } ∧ effects = [] ∧
        then_ = executing) ∨
      ∃ reply suggested childHandles, event = .reply reply suggested ∧
        run.answer executing reply = some (.asks childHandles (then_, effects)) ∧
        next = (run.withChildren childHandles).awaiting (.executeAction session step action then_) := by
  change run.step event = _ at stepped
  unfold Run.step at stepped
  split at stepped
  · rename_i signal
    rw [waits] at stepped
    simp only at stepped
    cases stepped
    cases stays
    exact .inl ⟨signal, rfl, by rw [waits], rfl, rfl⟩
  · rw [waits] at stepped
    cases stepped
  · rw [waits] at stepped
    cases stepped
  · rename_i reply suggested
    rw [waits] at stepped
    obtain ⟨answer, answered, shape⟩ := Option.map_eq_some_iff.mp stepped
    right
    cases answer with
    | asks childHandles request =>
      cases shape
      cases stays
      exact ⟨reply, suggested, childHandles, rfl, answered, rfl⟩
    | observes childHandles observation =>
      have ended : (run.withChildren childHandles).afterExecute session step action observation suggested =
          (next, effects) := shape
      exact (afterExecute_idle _ _ _ _ _ _ then_ ((congrArg (·.1.await) ended).trans stays)).elim
    | fails =>
      cases shape
      cases stays

/-- A child is refused exactly for a tool that the graph does not define. -/
theorem registerChildImpl_rejects {db : StructuralDb} {graphId : GraphId} {parent child : AgentId} {name : String}
    {tools : List String} :
    (∃ tool after, registerChildImpl graphId parent name tools child db = (.ok (.rejectedUnknownTool tool), after)) ↔
      ∃ tool ∈ tools, tool ∉ db.listToolDefIdsForGraph graphId := by
  have listed : (if tools.isEmpty then .ok none
      else (StructuralDbStore.listToolDefIdsForGraph db graphId).map fun defined =>
        tools.find? fun tool => !defined.contains tool : Except DbError (Option String)) =
      .ok (tools.find? fun tool => !(db.listToolDefIdsForGraph graphId).contains tool) := by
    cases tools <;> rfl
  unfold registerChildImpl
  rw [listed]
  constructor
  · rintro ⟨tool, after, rejected⟩
    split at rejected
    · cases rejected
    · rename_i unknown found
      have found := Except.ok.inj found
      exact ⟨unknown, List.mem_of_find?_eq_some found, by simpa using List.find?_some found⟩
    · split at rejected
      · cases rejected
      · split at rejected <;> cases rejected
  · rintro ⟨tool, member, unknown⟩
    cases found : tools.find? fun tool => !(db.listToolDefIdsForGraph graphId).contains tool with
    | some tool => exact ⟨tool, db, rfl⟩
    | none =>
      have known := List.find?_eq_none.mp found tool member
      exact (known (by simpa using unknown)).elim

/-- A child is registered as the database answers. -/
def Registers (db : StructuralDb) (run : Run) : Event → Prop
  | .reply (.childRegistered outcome) _ => ∀ session step action agentName mandate,
    run.await = .executeAction session step action (.registerChild agentName mandate) →
      ∃ childAgentId after, registerChildImpl run.input.graphId run.input.agentId agentName mandate.tools childAgentId db =
        (.ok outcome, after)
  | _ => True

/-- From a point of an action's execution to its observation: what it sends on the way, and
the child handles that it leaves. -/
inductive Executes (db : StructuralDb) (session : Session) (step : UInt64) (action : Decision) :
    Run → List Effect → List AgentRef → Observation → Prop where
  | observes {run executing reply childHandles observation} (suggested : Bool)
      (waits : run.await = .executeAction session step action executing)
      (registers : Registers db run (.reply reply suggested))
      (observed : run.answer executing reply = some (.observes childHandles observation)) :
      Executes db session step action run [] childHandles observation
  | goesOn {run next event effects executing then_ more childHandles observation}
      (waits : run.await = .executeAction session step action executing)
      (registers : Registers db run event)
      (stepped : workflow.step run event = some (next, effects))
      (stays : next.await = .executeAction session step action then_)
      (rest : Executes db session step action next more childHandles observation) :
      Executes db session step action run (effects ++ more) childHandles observation

end Coral.Temporal.Proofs

import Coral.Temporal.Workflow
import Mathlib.Logic.Function.Basic

/-! The agents of one graph: their rows in the structural database, their workflows, and
the signals on their way between them. Signals come in any order and may be lost. -/

namespace Coral.Temporal

structure SentSignal where
  id : Nat
  target : String
  signal : Signal
deriving DecidableEq

structure Graph where
  graphId : GraphId
  registry : List AgentId
  workflows : String → Option Run
  flight : List SentSignal
  sent : Nat

inductive GraphEvent where
  | act (workflowId : String) (event : Event)
  | register (agentId : AgentId)
  | deliver (id : Nat)
  | lose (id : Nat)
deriving DecidableEq

def Run.isOpen (run : Run) : Bool :=
  match run.await with
  | .closed _ => false
  | _ => true

namespace Graph

def workflowId (graph : Graph) (agentId : String) : String := agentWorkflowId graph.graphId.toString agentId

def setRun (graph : Graph) (workflowId : String) (run : Run) : Graph :=
  { graph with workflows := Function.update graph.workflows workflowId (some run) }

def isLive (graph : Graph) (workflowId : String) : Bool := (graph.workflows workflowId).any Run.isOpen

def send (graph : Graph) (target : String) (signal : Signal) : Graph :=
  { graph with flight := graph.flight ++ [⟨graph.sent, target, signal⟩], sent := graph.sent + 1 }

/-- A start under an id that is in use is refused by the server. A new run sends nothing
before its first reply. -/
def perform (graph : Graph) : Effect → Graph
  | .signalWorkflow target signal => graph.send target signal
  | .startChild workflowId input =>
    match graph.workflows workflowId with
    | none => graph.setRun workflowId (begin workflowId input).1
    | some _ => graph
  | _ => graph

/-- A child is started under the id of a row that the registration activity has inserted. -/
def launchable (graph : Graph) : Effect → Bool
  | .startChild workflowId _ => graph.registry.any fun id => workflowId == graph.workflowId id.toString
  | _ => true

def act (graph : Graph) (workflowId : String) (event : Event) : Option Graph := do
  let run ← graph.workflows workflowId
  let (next, effects) ← run.step event
  if effects.all graph.launchable then some (effects.foldl perform (graph.setRun workflowId next)) else none

def deliver (graph : Graph) (id : Nat) : Option Graph := do
  let message ← graph.flight.find? (·.id == id)
  let run ← graph.workflows message.target
  let (next, _) ← run.step (.signal message.signal)
  return { graph.setRun message.target next with flight := graph.flight.filter (·.id != id) }

/-- Signals reach a run by delivery alone: none comes from outside the graph. -/
def step (graph : Graph) : GraphEvent → Option Graph
  | .act _ (.signal _) => none
  | .act workflowId event => graph.act workflowId event
  | .register agentId => some { graph with registry := graph.registry ++ [agentId] }
  | .deliver id => graph.deliver id
  | .lose id => some { graph with flight := graph.flight.filter (·.id != id) }

/-- A graph whose agents have been registered and started. -/
def start (graphId : GraphId) (inputs : List AgentInput) : Graph :=
  inputs.foldl (fun graph input =>
      let workflowId := graph.workflowId input.agentId.toString
      { graph.setRun workflowId (begin workflowId input).1 with registry := graph.registry ++ [input.agentId] })
    ⟨graphId, [], fun _ => none, [], 0⟩

end Graph

end Coral.Temporal

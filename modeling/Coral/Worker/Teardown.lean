import Coral.Worker.Reaper

/-! `retire_graph` signal by signal, among the steps of the graph's workflows. What the
workflows ask for is what comes out. -/

namespace Coral.Worker
open Coral.Library Coral.Temporal

/-- `untold` are the agents, in the order of the listing, whose signal has not been sent. -/
structure Teardown where
  graph : Graph
  untold : List AgentId

inductive TeardownEvent where
  | graph (event : GraphEvent)
  | tell
deriving DecidableEq

/-- What a step of a graph has its workflows ask for, each with the one that asks. -/
def emitted (graph : Graph) : GraphEvent → List (String × Effect)
  | .act workflowId event =>
    match (graph.workflows workflowId).bind (·.step event) with
    | some (_, effects) => effects.map fun effect => (workflowId, effect)
    | none => []
  | _ => []

/-- A signal that the server accepts comes before whatever it accepts later. -/
def accept (graph : Graph) (workflowId : String) (signal : Signal) : Option Graph := do
  let run ← graph.workflows workflowId
  let (next, _) ← run.step (.signal signal)
  return graph.setRun workflowId next

namespace Teardown

def step (teardown : Teardown) : TeardownEvent → Option (Teardown × List (String × Effect))
  | .graph event => (teardown.graph.step event).map fun graph => ({ teardown with graph }, emitted teardown.graph event)
  | .tell =>
    match teardown.untold with
    | [] => none
    | id :: untold =>
      (accept teardown.graph (teardown.graph.workflowId id.toString) (.retire RETIRE_REASON)).map fun graph =>
        (⟨graph, untold⟩, [])

end Teardown

def teardown : Machine Teardown TeardownEvent (String × Effect) := ⟨Teardown.step⟩

end Coral.Worker

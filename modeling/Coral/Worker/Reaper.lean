import Coral.Temporal.Graph
import Coral.Temporal.Quiescence

/-! The quiescence-GC reaper over one graph. A sweep lists the agents, then describes and
queries them one at a time while the graph goes on. -/

namespace Coral.Worker
open Coral.Library Coral.Temporal

def RETIRE_REASON : String := "quiescence GC: graph reached a fixpoint with no possible future signal"

structure ReaperConfig where
  interval : Duration
  waveMargin : Duration
deriving DecidableEq

/-- `observe_graph` in progress. `outstanding` is history: the signals to live agents that
were on their way when the sweep began. -/
structure Sweep where
  now : Duration
  listed : List AgentId
  remaining : List AgentId
  described : Bool
  seen : List AgentObservation
  outstanding : List SentSignal

/-- History: the signals sent, and the agents listed, by the sweep that set `stable_since`. -/
structure Window where
  mark : Nat
  listed : List AgentId

structure Reaper where
  config : ReaperConfig
  clock : Duration
  tracker : Option GraphQuiescence
  sweep : Option Sweep
  retired : Bool
  window : Window

structure System where
  graph : Graph
  reaper : Reaper

inductive SystemEvent where
  | graph (event : GraphEvent)
  | list (now : Duration)
  | describe
  | query
  | giveUp
  | finish (landed : List String)
deriving DecidableEq

namespace Reaper

def list (reaper : Reaper) (graph : Graph) (now : Duration) : Option Reaper :=
  if reaper.retired = false ∧ reaper.sweep.isNone = true ∧ reaper.clock.nanos ≤ now.nanos then
    some { reaper with
      clock := now
      sweep := some ⟨now, graph.registry, graph.registry, false, [],
        graph.flight.filter fun message => graph.isLive message.target⟩ }
  else none

/-- A closed workflow is passed over; one that is not there is an error, as in `giveUp`. -/
def describe (reaper : Reaper) (graph : Graph) : Option Reaper := do
  let sweep ← reaper.sweep
  let id ← sweep.remaining.head?
  let run ← graph.workflows (graph.workflowId id.toString)
  if sweep.described then none
  else if run.isOpen then some { reaper with sweep := some { sweep with described := true } }
  else some { reaper with sweep := some { sweep with remaining := sweep.remaining.tail } }

def query (reaper : Reaper) (graph : Graph) : Option Reaper := do
  let sweep ← reaper.sweep
  let id ← sweep.remaining.head?
  let run ← graph.workflows (graph.workflowId id.toString)
  if sweep.described then
    some { reaper with sweep := some { sweep with
      remaining := sweep.remaining.tail
      described := false
      seen := sweep.seen ++ [⟨id.toString, run.state.snapshot⟩] } }
  else none

/-- Nothing live, or something that could not be read: the tracker is removed. -/
def giveUp (reaper : Reaper) : Reaper := { reaper with tracker := none, sweep := none }

/-- The verdict of a sweep that has read every agent. -/
def verdict (reaper : Reaper) (sweep : Sweep) : Verdict × GraphQuiescence :=
  (reaper.tracker.getD (.new reaper.config.waveMargin)).observe sweep.now sweep.seen

end Reaper

/-- `retire_graph`, with the agents whose signal landed. -/
def retireGraph (graph : Graph) (agents : List AgentObservation) : Graph :=
  agents.foldl (fun graph agent => graph.send (graph.workflowId agent.agentId) (.retire RETIRE_REASON)) graph

namespace System

def finish (system : System) (landed : List String) : Option (System × List Verdict) := do
  let reaper := system.reaper
  let sweep ← reaper.sweep
  if !sweep.remaining.isEmpty then none
  else if sweep.seen.isEmpty then some (⟨system.graph, reaper.giveUp⟩, [])
  else
    match reaper.verdict sweep with
    | (.wait, tracker) =>
      let window := if (reaper.tracker.bind (·.lastDigest)) = tracker.lastDigest then reaper.window
        else ⟨system.graph.sent, sweep.listed⟩
      some (⟨system.graph, { reaper with tracker := some tracker, sweep := none, window }⟩, [.wait])
    | (.retire, _) =>
      let told := sweep.seen.filter fun agent => landed.contains agent.agentId
      some (⟨retireGraph system.graph told,
        { reaper.giveUp with retired := told.length == sweep.seen.length }⟩, [.retire])

def step (system : System) : SystemEvent → Option (System × List Verdict)
  | .graph event => (system.graph.step event).map fun graph => ({ system with graph }, [])
  | .list now => (system.reaper.list system.graph now).map fun reaper => ({ system with reaper }, [])
  | .describe => (system.reaper.describe system.graph).map fun reaper => ({ system with reaper }, [])
  | .query => (system.reaper.query system.graph).map fun reaper => ({ system with reaper }, [])
  | .giveUp => some ({ system with reaper := system.reaper.giveUp }, [])
  | .finish landed => system.finish landed

def start (config : ReaperConfig) (graph : Graph) : System :=
  ⟨graph, ⟨config, ⟨0⟩, none, none, false, ⟨0, []⟩⟩⟩

end System

def graphAndReaper : Machine System SystemEvent Verdict := ⟨System.step⟩

end Coral.Worker

import Coral.Worker.Reaper

/-! `run_reaper` over every graph, and the time its calls take. A sweep has one timestamp, taken
when it starts; the snapshots are read as it goes along. -/

namespace Coral.Worker
open Coral.Library Coral.Temporal

def QUERY_TIMEOUT : Duration := ⟨5 * 1000000000⟩

/-- What a call answers, and the nanoseconds that it takes. -/
structure Timed (α : Type) where
  answer : α
  took : Nat

/-- `tokio::time::timeout` of `QUERY_TIMEOUT`. -/
def Timed.bounded {α : Type} (call : Timed α) : Timed (Option α) :=
  if call.took ≤ QUERY_TIMEOUT.nanos then ⟨some call.answer, call.took⟩ else ⟨none, QUERY_TIMEOUT.nanos⟩

inductive DescribeAnswer where
  | running
  | closed
  | failed
deriving DecidableEq

structure AgentVisit where
  agentId : String
  describe : Timed DescribeAnswer
  query : Timed (Option AgentSnapshot)

/-- A snapshot, and how long after the start of the reaper it was there. -/
structure SnapshotRead where
  observation : AgentObservation
  moment : Nat
deriving DecidableEq

def observeAgents : Nat → List AgentVisit → Option (List SnapshotRead) × Nat
  | elapsed, [] => (some [], elapsed)
  | elapsed, agent :: agents =>
    let described := agent.describe.bounded
    match described.answer with
    | some .closed => observeAgents (elapsed + described.took) agents
    | some .running =>
      let queried := agent.query.bounded
      let moment := elapsed + described.took + queried.took
      match queried.answer.join with
      | none => (none, moment)
      | some snapshot =>
        match observeAgents moment agents with
        | (none, after) => (none, after)
        | (some reads, after) => (some (⟨⟨agent.agentId, snapshot⟩, moment⟩ :: reads), after)
    | some .failed | none => (none, elapsed + described.took)

/-- Nothing, where no agent is live or one could not be read. -/
def observeGraph (elapsed : Nat) (agents : List AgentVisit) : Option (List SnapshotRead) × Nat :=
  match observeAgents elapsed agents with
  | (some [], after) => (none, after)
  | outcome => outcome

/-- What one sweep makes of one graph; `verdict` is none where its tracker is removed unasked. -/
structure GraphVisit where
  graphId : GraphId
  now : Duration
  reads : List SnapshotRead
  verdict : Option Verdict
deriving DecidableEq

/-- History: a listing, after which the trackers of other graphs are gone, and the visits. -/
inductive SweepLog where
  | swept (now : Duration) (live : List GraphId)
  | visited (visit : GraphVisit)
deriving DecidableEq

structure ReaperLoop where
  elapsed : Nat
  now : Duration
  pending : List GraphId
  trackers : GraphId → Option GraphQuiescence
  retired : List GraphId

/-- `sweep` starts when the loop has slept; `graph` goes on with the next graph of it. -/
inductive SweepCall where
  | sweep (slept : Nat) (listGraphs : Timed (Option (List GraphId)))
  | graph (listAgents : Timed (Option (List AgentVisit))) (retireGraph : Timed Bool)

namespace ReaperLoop

def start : ReaperLoop := ⟨0, ⟨0⟩, [], fun _ => none, []⟩

def track (loop : ReaperLoop) (graphId : GraphId) (tracker : Option GraphQuiescence) : ReaperLoop :=
  { loop with trackers := fun other => if other = graphId then tracker else loop.trackers other }

def sweep (config : ReaperConfig) (loop : ReaperLoop) (slept : Nat) (listGraphs : Timed (Option (List GraphId))) :
    Option (ReaperLoop × List SweepLog) :=
  if loop.pending ≠ [] ∨ slept < config.interval.nanos then none
  else
    let now : Duration := ⟨loop.elapsed + slept⟩
    let begun := { loop with elapsed := now.nanos + listGraphs.took, now }
    match listGraphs.answer with
    | none => some (begun, [])
    | some live =>
      let trackers graphId := if graphId ∈ live then loop.trackers graphId else none
      some ({ begun with pending := live, trackers }, [.swept now live])

/-- The body of the loop over the graphs of a sweep. -/
def visit (config : ReaperConfig) (loop : ReaperLoop) (graphId : GraphId)
    (listAgents : Timed (Option (List AgentVisit))) (retireGraph : Timed Bool) : ReaperLoop × List SweepLog :=
  if graphId ∈ loop.retired then (loop, [])
  else
    let listed := loop.elapsed + listAgents.took
    match listAgents.answer with
    | none => ({ loop.track graphId none with elapsed := listed }, [.visited ⟨graphId, loop.now, [], none⟩])
    | some agents =>
      match observeGraph listed agents with
      | (none, after) => ({ loop.track graphId none with elapsed := after }, [.visited ⟨graphId, loop.now, [], none⟩])
      | (some reads, after) =>
        match ((loop.trackers graphId).getD (.new config.waveMargin)).observe loop.now (reads.map (·.observation)) with
        | (.wait, tracker) =>
          ({ loop.track graphId (some tracker) with elapsed := after },
            [.visited ⟨graphId, loop.now, reads, some .wait⟩])
        | (.retire, _) =>
          ({ loop.track graphId none with
              elapsed := after + retireGraph.took
              retired := if retireGraph.answer then graphId :: loop.retired else loop.retired },
            [.visited ⟨graphId, loop.now, reads, some .retire⟩])

def step (config : ReaperConfig) (loop : ReaperLoop) : SweepCall → Option (ReaperLoop × List SweepLog)
  | .sweep slept listGraphs => loop.sweep config slept listGraphs
  | .graph listAgents retireGraph =>
    match loop.pending with
    | [] => none
    | graphId :: pending => some ({ loop with pending }.visit config graphId listAgents retireGraph)

end ReaperLoop

def sweeping (config : ReaperConfig) : Machine ReaperLoop SweepCall SweepLog := ⟨ReaperLoop.step config⟩

end Coral.Worker

import Coral.Temporal.State
import Mathlib.Data.List.Sort

/-! When a graph counts as finished: every agent quiescent, with the same agents and the
same counters, over a window of at least `wave_margin`. -/

namespace Coral.Temporal

structure AgentObservation where
  agentId : String
  snapshot : AgentSnapshot
deriving DecidableEq

def agentQuiescent (s : AgentSnapshot) : Bool :=
  s.isNever && s.parked && decide (1 ≤ s.tick) && s.pendingTriggersCount == 0 && s.pendingHumanOpsCount == 0 &&
    s.pendingMandatePatchesCount == 0

structure DigestRow where
  agentId : String
  triggers : UInt64
  humanOps : UInt64
  mandatePatches : UInt64
deriving DecidableEq

/-- The order of the tuples: by the first component that differs. -/
def DigestRow.le (first second : DigestRow) : Bool :=
  if first.agentId ≠ second.agentId then first.agentId.toList ≤ second.agentId.toList
  else if first.triggers ≠ second.triggers then first.triggers ≤ second.triggers
  else if first.humanOps ≠ second.humanOps then first.humanOps ≤ second.humanOps
  else first.mandatePatches ≤ second.mandatePatches

def AgentObservation.row (observation : AgentObservation) : DigestRow :=
  ⟨observation.agentId, observation.snapshot.cumulativeTriggersObserved,
    observation.snapshot.cumulativeHumanOpsObserved, observation.snapshot.cumulativeMandatePatchesObserved⟩

def digest (agents : List AgentObservation) : List DigestRow :=
  (agents.map AgentObservation.row).insertionSort (DigestRow.le · ·)

inductive Verdict where
  | retire
  | wait
deriving DecidableEq

structure GraphQuiescence where
  waveMargin : Duration
  stableSince : Option Duration := none
  lastDigest : Option (List DigestRow) := none
deriving DecidableEq

def GraphQuiescence.new (waveMargin : Duration) : GraphQuiescence := { waveMargin }

def GraphQuiescence.reset (tracker : GraphQuiescence) : GraphQuiescence :=
  { tracker with stableSince := none, lastDigest := none }

def GraphQuiescence.observe (tracker : GraphQuiescence) (now : Duration) (agents : List AgentObservation) :
    Verdict × GraphQuiescence :=
  let allQuiescent := !agents.isEmpty && agents.all fun agent => agentQuiescent agent.snapshot
  if !allQuiescent then (.wait, tracker.reset)
  else
    let current := digest agents
    if tracker.lastDigest = some current then
      let since := tracker.stableSince.getD now
      let verdict := if tracker.waveMargin.nanos ≤ (now.saturatingSub since).nanos then .retire else .wait
      (verdict, { tracker with stableSince := some since })
    else (.wait, { tracker with lastDigest := some current, stableSince := some now })

end Coral.Temporal

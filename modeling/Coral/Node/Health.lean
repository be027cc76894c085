import Coral.Node.Decision

/-! Agent health: the state, the retry budget of a cycle, and the transitions. Whether the
file of a transition could be written is given with the call. -/

namespace Coral

structure DateTime where
  nanos : Int
deriving DecidableEq

/-- `Utc::now`, by the order of the readings within one call. -/
abbrev Clock := Nat → DateTime

inductive FailureKind where
  | inference
  | toolCall
deriving DecidableEq

structure RetryBudget where
  maxInference : UInt32 := 1
  maxTool : UInt32 := 3
deriving DecidableEq

structure Attempt where
  attempt : UInt32
  time : DateTime
  error : String
deriving DecidableEq

structure FailingCall where
  kind : FailureKind
  details : Json
deriving DecidableEq

structure HealthIncident where
  failing : FailingCall
  retryTrail : List Attempt
  lastError : String
  transitionedAt : DateTime
deriving DecidableEq

inductive HealthState where
  | healthy (since : DateTime)
  | unhealthy (since : DateTime) (incident : HealthIncident)
deriving DecidableEq

structure HealthTracker where
  budget : RetryBudget
  state : HealthState
  inferenceUsed : UInt32 := 0
  toolUsed : UInt32 := 0
deriving DecidableEq

/-- `u32::saturating_add` of one. -/
def saturatingSucc (value : UInt32) : UInt32 := .ofNat (min (value.toNat + 1) (2 ^ 32 - 1))

namespace HealthTracker

def beginTick (health : HealthTracker) : HealthTracker := { health with inferenceUsed := 0, toolUsed := 0 }

/-- Whether the budget is exhausted, beside the new counters. -/
def recordFailure (health : HealthTracker) : FailureKind → Bool × HealthTracker
  | .inference =>
    let used := saturatingSucc health.inferenceUsed
    (health.budget.maxInference < used, { health with inferenceUsed := used })
  | .toolCall =>
    let used := saturatingSucc health.toolUsed
    (health.budget.maxTool < used, { health with toolUsed := used })

def transitionToUnhealthy (health : HealthTracker) (incident : HealthIncident) (written : Bool) :
    Option HealthTracker :=
  if written then some { health with state := .unhealthy incident.transitionedAt incident } else none

/-- An agent that is healthy already writes nothing. -/
def markTickSuccess (health : HealthTracker) (now : DateTime) (written : Bool) : Option HealthTracker :=
  match health.state with
  | .healthy _ => some health.beginTick
  | .unhealthy _ _ => if written then some { health.beginTick with state := .healthy now } else none

end HealthTracker

end Coral

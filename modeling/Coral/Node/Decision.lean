import Coral.Node.Json

/-! What an agent is told (`Mandate`, `Trigger`), what it decides (`Decision`) and what
it reasons over within one cycle (`Seed`, `Session`). Plain data, as on the wire. -/

namespace Coral

/-- `std::time::Duration`, in whole nanoseconds. -/
structure Duration where
  nanos : Nat
deriving DecidableEq

namespace Duration

def fromMillis (millis : Nat) : Duration := ⟨millis * 1000000⟩
def asMillis (duration : Duration) : Nat := duration.nanos / 1000000

/-- `Duration::saturating_sub`. -/
def saturatingSub (first second : Duration) : Duration := ⟨first.nanos - second.nanos⟩

end Duration

structure Uuid where
  bits : BitVec 128
deriving DecidableEq

/-- The hyphenated text of a `Uuid`, in lower case. -/
def Uuid.hyphenated (uuid : Uuid) : String :=
  String.ofList ((List.range 32).flatMap fun place =>
    let digit := Nat.digitChar (uuid.bits.toNat / 16 ^ (31 - place) % 16)
    if place = 8 ∨ place = 12 ∨ place = 16 ∨ place = 20 then ['-', digit] else [digit])

structure AgentId where
  uuid : Uuid
deriving DecidableEq

structure GraphId where
  uuid : Uuid
deriving DecidableEq

def AgentId.toString (id : AgentId) : String := id.uuid.hyphenated

def GraphId.toString (id : GraphId) : String := id.uuid.hyphenated

structure AgentRef where
  workflowId : String
  agentId : AgentId
deriving DecidableEq

structure OutputId where
  hex : String
deriving DecidableEq

structure RetryPolicy where
  maxAttempts : UInt32
  backoff : Duration
deriving DecidableEq

structure ContextPolicy where
  recentOutputs : Nat := 8
  recentEvidence : Nat := 8
  openClaimsMax : Nat := 32
deriving DecidableEq

/-- `idlePeriod = none` is the "never" cadence. -/
structure Mandate where
  text : String
  idlePeriod : Option Duration
  stepCap : Option UInt64
  retryPolicy : Option RetryPolicy := none
  contextPolicy : ContextPolicy := {}
  model : Option String := none
  tools : List String := []
deriving DecidableEq

def Mandate.new (text : String) (idlePeriod : Duration) (stepCap : Option UInt64) : Mandate :=
  { text, idlePeriod := some idlePeriod, stepCap }

def Mandate.newNever (text : String) (stepCap : Option UInt64) : Mandate := { text, idlePeriod := none, stepCap }

def Mandate.isNever (mandate : Mandate) : Bool := mandate.idlePeriod.isNone

def INTERIM_STEP_CAP : UInt64 := 1000000

/-- `scheduler::arm_self_wake`: a "never" node arms its first wake only. -/
def armSelfWake (never isFirstWake : Bool) : Bool := !never || isFirstWake

structure HumanOp where
  value : Json
deriving DecidableEq

structure MandatePatch where
  value : Json
deriving DecidableEq

inductive Trigger where
  | scheduledWake
  | external (kind : String) (payload : Json)
  | humanOverride (op : HumanOp)
  | childOutput (childRef : AgentRef) (agentName : String) (outputId : OutputId)
  | childRetired (childRef : AgentRef) (agentName : String) (reason : String)
deriving DecidableEq

structure ToolCall where
  name : String
  args : Json
  claimSeed : String
  toolUseId : Option String
deriving DecidableEq

inductive FsOp where
  | writeFile (path content : String)
  | deleteFile (path : String)
deriving DecidableEq

def FsOp.path : FsOp → String
  | .writeFile path _ | .deleteFile path => path

structure ReconcileSource where
  childRef : AgentRef
  outputId : OutputId
deriving DecidableEq

structure ConflictAlternative where
  sourceChild : AgentRef
  sourceOutputId : OutputId
  claim : String
deriving DecidableEq

structure ConflictResolution where
  chosenAlternativeIdx : Nat
  reasoning : String
deriving DecidableEq

structure ConflictRecordIntent where
  alternatives : List ConflictAlternative
  resolution : Option ConflictResolution
deriving DecidableEq

inductive Decision where
  | callTools (calls : List ToolCall)
  | writeOutput (body : String) (citations : List String)
  | rewriteFs (ops : List FsOp)
  | read (path : String)
  | list (path : String)
  | search (query : String) (path : Option String)
  | idle (nextAfter : Duration)
  | spawnChild (agentName : String) (mandate : Mandate)
  | reconcileChildren (sources : List ReconcileSource) (conflict : Option ConflictRecordIntent)
  | retireChild (childRef : AgentRef) (reason : String)
  | replaceChild (childRef : AgentRef) (newMandate : Mandate)
deriving DecidableEq

/-- `Idle` is the sole step that ends a cycle. -/
def Decision.idleAfter : Decision → Option Duration
  | .idle nextAfter => some nextAfter
  | _ => none

inductive Remainder where
  | none
  | exactly (count : Nat)
  | atLeast (count : Nat)
deriving DecidableEq

/-- One file fewer lies beyond the window. -/
def Remainder.decremented : Remainder → Remainder
  | .none => .none
  | .exactly count => if count ≤ 1 then .none else .exactly (count - 1)
  | .atLeast count => .atLeast (count - 1)

structure FsIndex where
  notes : List String := []
  outputs : List String := []
  notesMore : Remainder := .none
  outputsMore : Remainder := .none
deriving DecidableEq

structure Seed where
  mandate : Mandate
  triggers : List Trigger
  index : FsIndex
deriving DecidableEq

structure Observation where
  ok : Bool
  content : String
deriving DecidableEq

def Observation.success (content : String) : Observation := ⟨true, content⟩

def Observation.failure (content : String) : Observation := ⟨false, content⟩

structure Step where
  action : Decision
  observation : Observation
deriving DecidableEq

structure Session where
  seed : Seed
  steps : List Step
deriving DecidableEq

namespace Session

def new (seed : Seed) : Session := ⟨seed, []⟩

def push (session : Session) (action : Decision) (observation : Observation) : Session :=
  { session with steps := session.steps ++ [⟨action, observation⟩] }

def len (session : Session) : Nat := session.steps.length

@[simp] theorem len_new (seed : Seed) : (new seed).len = 0 := rfl

@[simp] theorem len_push (session : Session) (action : Decision) (observation : Observation) :
    (session.push action observation).len = session.len + 1 := by
  simp [len, push]

end Session

/-- `agent_core::CYCLE_RUNAWAY_FUSE`. -/
def CYCLE_RUNAWAY_FUSE : Nat := 50000

end Coral

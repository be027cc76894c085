import Coral.Library.FileScript
import Coral.Node.Health
import Coral.Node.LocalWrites

/-! The health tracker over its files, `health.json` and the archive under `health/`. Paths
are relative to the root of the agent. -/

namespace Coral.HealthFiles
open Coral.Library

inductive HealthError where
  | budgetExhausted (kind : FailureKind)
  | unsupportedVersion (version : UInt32)
  | serde (message : String)
  | io (path : List String) (source : Errno)

inductive RecordState where
  | healthy
  | unhealthy
deriving DecidableEq

structure HealthRecord where
  version : UInt32
  state : RecordState
  since : DateTime
  incident : Option HealthIncident
deriving DecidableEq

/-- `serde_json` for the records, and `chrono` for the names in the archive. -/
structure Formats where
  toVecPretty : HealthRecord → Bytes
  fromSlice : Bytes → Except String HealthRecord
  /-- `%Y-%m-%dT%H:%M:%SZ` -/
  stamp : DateTime → String

abbrev Disk := FileTree String Bytes

abbrev Script := FileScript String Bytes

def HEALTH_FILE : String := "health.json"
def ARCHIVE_DIR : String := "health"
def SCHEMA_VERSION : UInt32 := 1

def livePath : List String := [HEALTH_FILE]

/-- `map_err(HealthError::io)` and the `?` after it. -/
def orIo {α β : Type} (path : List String) (result : Except Errno α) (next : α → Script (Except HealthError β)) :
    Script (Except HealthError β) :=
  match result with
  | .ok value => next value
  | .error errno => .done (.error (.io path errno))

/-- A path without a file name has no sibling to write to. -/
def atomicWrite (path : List String) (bytes : Bytes) : Script (Except HealthError Unit) :=
  match path.getLast? with
  | none => .done (.error (.io path .notFound))
  | some name =>
    let tmp := path.dropLast ++ [name ++ ".tmp"]
    .write tmp bytes fun written => orIo tmp written fun _ =>
      .rename tmp path fun renamed => orIo path renamed fun _ => .done (.ok ())

variable (formats : Formats)

def writeLive (record : HealthRecord) : Script (Except HealthError Unit) :=
  atomicWrite livePath (formats.toVecPretty record)

def healthyRecord (since : DateTime) : HealthRecord := ⟨SCHEMA_VERSION, .healthy, since, none⟩

def unhealthyRecord (incident : HealthIncident) : HealthRecord :=
  ⟨SCHEMA_VERSION, .unhealthy, incident.transitionedAt, some incident⟩

def writeHealthy (since : DateTime) : Script (Except HealthError Unit) := writeLive formats (healthyRecord since)

def archivePath (transitionedAt : DateTime) : List String := [ARCHIVE_DIR, formats.stamp transitionedAt ++ ".json"]

def archiveCurrent (transitionedAt : DateTime) : Script (Except HealthError Unit) :=
  .exists_ livePath fun present =>
    if !present then .done (.ok ())
    else .createDirAll [ARCHIVE_DIR] fun made => orIo [ARCHIVE_DIR] made fun _ =>
      .read livePath fun bytes => orIo livePath bytes fun bytes =>
        atomicWrite (archivePath formats transitionedAt) bytes

/-- What a record that was read says. -/
def recordedState (record : HealthRecord) : Except HealthError HealthState :=
  if record.version ≠ SCHEMA_VERSION then .error (.unsupportedVersion record.version)
  else match record.state, record.incident with
    | .healthy, _ => .ok (.healthy record.since)
    | .unhealthy, some incident => .ok (.unhealthy record.since incident)
    | .unhealthy, none => .error (.serde "Unhealthy record missing `incident`")

def parseState (bytes : Bytes) : Except HealthError HealthState :=
  match formats.fromSlice bytes with
  | .ok record => recordedState record
  | .error message => .error (.serde message)

/-- `HealthTracker::open` -/
def openTracker (budget : RetryBudget) (now : DateTime) : Script (Except HealthError HealthTracker) :=
  .exists_ livePath fun present =>
    if present then
      .read livePath fun bytes => orIo livePath bytes fun bytes =>
        match parseState formats bytes with
        | .ok state => .done (.ok { budget, state })
        | .error error => .done (.error error)
    else (writeHealthy formats now).bind fun
      | .ok () => .done (.ok { budget, state := .healthy now })
      | .error error => .done (.error error)

/-- The answer, beside the tracker as the call leaves it. -/
abbrev Answer := Except HealthError Unit × HealthTracker

def recordFailure (health : HealthTracker) (kind : FailureKind) : Script Answer :=
  let (exhausted, counted) := health.recordFailure kind
  .done (if exhausted then .error (.budgetExhausted kind) else .ok (), counted)

def transitionToUnhealthy (health : HealthTracker) (incident : HealthIncident) : Script Answer :=
  (writeLive formats (unhealthyRecord incident)).bind fun
    | .ok () => .done (.ok (), { health with state := .unhealthy incident.transitionedAt incident })
    | .error error => .done (.error error, health)

def markTickSuccess (health : HealthTracker) (now : DateTime) : Script Answer :=
  match health.state with
  | .healthy _ => .done (.ok (), health.beginTick)
  | .unhealthy _ incident =>
    (archiveCurrent formats incident.transitionedAt).bind fun
      | .error error => .done (.error error, health)
      | .ok () => (writeHealthy formats now).bind fun
        | .error error => .done (.error error, health)
        | .ok () => .done (.ok (), { health.beginTick with state := .healthy now })

inductive Call where
  | open_ (budget : RetryBudget) (now : DateTime)
  | beginTick
  | recordFailure (kind : FailureKind)
  | transitionToUnhealthy (incident : HealthIncident)
  | markTickSuccess (now : DateTime)

/-- The tracker that a call leaves in memory, if it leaves one. An opened tracker takes the
place of the one before. -/
def Call.script : Call → Option HealthTracker → Option (Script (Option HealthTracker))
  | .open_ budget now, _ => some ((openTracker formats budget now).bind fun opened => .done opened.toOption)
  | .beginTick, some health => some (.done (some health.beginTick))
  | .recordFailure kind, some health => some ((HealthFiles.recordFailure health kind).bind (.done <| some ·.2))
  | .transitionToUnhealthy incident, some health =>
    some ((HealthFiles.transitionToUnhealthy formats health incident).bind (.done <| some ·.2))
  | .markTickSuccess now, some health =>
    some ((HealthFiles.markTickSuccess formats health now).bind (.done <| some ·.2))
  | .beginTick, none | .recordFailure _, none | .transitionToUnhealthy _, none | .markTickSuccess _, none => none

/-- A call that has begun, with the disk and the tracker it found. -/
structure Running where
  call : Call
  before : Disk
  tracker : Option HealthTracker
  script : Script (Option HealthTracker)

structure Process where
  disk : Disk
  tracker : Option HealthTracker := none
  running : Option Running := none

inductive ProcessEvent where
  | call (call : Call)
  | file (event : FileEvent Bytes)
  | return_
  | crash

def Process.step (process : Process) : ProcessEvent → Option Process
  | .call call =>
    match process.running with
    | some _ => none
    | none => do
      let script ← call.script formats process.tracker
      return { process with running := some ⟨call, process.disk, process.tracker, script⟩ }
  | .file event => do
    let running ← process.running
    let (script, disk) ← running.script.step process.disk event
    return { process with disk, running := some { running with script } }
  | .return_ =>
    match process.running with
    | some { script := .done tracker, .. } => some { process with tracker, running := none }
    | _ => none
  | .crash => some { process with tracker := none, running := none }

def processes : Machine Process ProcessEvent Unit := ⟨fun process event => (process.step formats event).map (·, [])⟩

/-- What `open` finds when nothing fails. -/
def reopened (disk : Disk) (budget : RetryBudget) (now : DateTime) : Except HealthError HealthState :=
  ((openTracker formats budget now).run disk).1.map (·.state)

end Coral.HealthFiles

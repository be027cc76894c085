import Coral.Library.Threads
import Coral.Temporal.FileActivities

/-! The `execute_tool` activities of one batch, which run at the same time on one agent's
files: each stands between two calls of the store, and the calls of different activities come
in any order. -/

namespace Coral.Temporal
open Coral.Library

/-- A directory that has a tail. -/
inductive Bucket where
  | evidence
  | notes
deriving DecidableEq

namespace Bucket

def suffix : Bucket → String
  | .evidence => EVIDENCE_TAIL_SUFFIX
  | .notes => NOTES_TAIL_SUFFIX

def indexed : Bucket → String
  | .evidence => "evidence/"
  | .notes => "notes/"

def isRecord : Bucket → String → Bool
  | .evidence => isJsonRecord
  | .notes => isNoteRecord

end Bucket

/-- The next call that an activity makes, with what it carries from the ones before. -/
inductive Stage where
  | readMandate
  | writeMandate
  | list (bucket : Bucket)
  | compare (bucket : Bucket) (onDisk : List String)
  | rebuild (bucket : Bucket) (tail : TailObject)
  | record
  | readTail
  | append (tail : TailObject)
  | ended (result : Except String ToolCallOutcome)

/-- `since` is how often the evidence tail had been written when the update at hand began. -/
structure Recording where
  record : EvidenceRecord
  slugSeed : String
  clock : Clock
  stage : Stage := .readMandate
  since : Nat := 0

namespace Recording

def relpath (activity : Recording) : String := evidenceRelpath activity.slugSeed activity.record.id

def filename (activity : Recording) : String := (stripStart activity.relpath "evidence/").getD activity.relpath

/-- The next call overwrites the evidence tail. -/
def writesTail (activity : Recording) : Bool :=
  match activity.stage with
  | .rebuild .evidence _ | .append _ => true
  | _ => false

end Recording

/-- The store, and how often the evidence tail has been written. -/
structure Contended (σ : Type) where
  storage : σ
  tailWrites : Nat := 0

/-- What `reconcile_tail` goes on to once a directory is done with. -/
def Bucket.next : Bucket → Stage
  | .evidence => .list .notes
  | .notes => .record

def Bucket.reading (clock : Clock) : Bucket → DateTime
  | .evidence => clock 1
  | .notes => clock 2

def rebuiltTail (sorted : List String) (tail : TailObject) (now : DateTime) : TailObject :=
  let chosen := (sorted.drop (sorted.length - TAIL_K)).reverse
  ⟨chosen.map fun filename =>
    ⟨filename, ((tail.entries.reverse.find? (·.filename == filename)).map (·.addedAt)).getD now⟩⟩

section Step

variable {σ : Type} [AgentStorage σ]

def openFailed (error : FsError) : Stage := .ended (.error ("agent_fs open failed: " ++ error.toString))

def recordFailed (error : FsError) : Stage := .ended (.error ("record_evidence failed: " ++ error.toString))

/-- One call of the store by one activity. -/
def recordingStep (fs : AgentFs) (activity : Recording) (shared : Contended σ) : Option (Recording × Contended σ) :=
  let goes (stage : Stage) := { activity with stage }
  match activity.stage with
  | .readMandate =>
    match AgentFs.get shared.storage (fs.key "mandate.md") with
    | .error error => some (goes (openFailed error), shared)
    | .ok existing => some (goes (if existing.isNone then .writeMandate else .list .evidence), shared)
  | .writeMandate =>
    match AgentFs.put shared.storage (fs.key "mandate.md") (.text placeholderMandate.text) with
    | .error error => some (goes (openFailed error), shared)
    | .ok after => some (goes (.list .evidence), { shared with storage := after })
  | .list bucket =>
    match AgentFs.listAll shared.storage (fs.key bucket.indexed) with
    | .error error => some (goes (openFailed error), shared)
    | .ok keys =>
      let onDisk := (keys.filterMap fun key => stripStart key (fs.key bucket.indexed)).filter bucket.isRecord
      if onDisk.isEmpty then some (goes bucket.next, shared)
      else
        let sorted : List String := onDisk.insertionSort fun first second => first.toList ≤ second.toList
        some ({ activity with stage := .compare bucket sorted, since := shared.tailWrites }, shared)
  | .compare bucket sorted =>
    match AgentFs.get shared.storage (fs.key bucket.suffix) with
    | .error error => some (goes (openFailed error), shared)
    | .ok found =>
      let tail := (found.bind Content.asTail).getD {}
      if sorted.all fun filename => tail.entries.any (·.filename == filename) then some (goes bucket.next, shared)
      else some (goes (.rebuild bucket (rebuiltTail sorted tail (bucket.reading activity.clock))), shared)
  | .rebuild bucket tail =>
    match AgentFs.put shared.storage (fs.key bucket.suffix) (.tail tail) with
    | .error error => some (goes (openFailed error), shared)
    | .ok after =>
      some (goes bucket.next, ⟨after, if bucket = .evidence then shared.tailWrites + 1 else shared.tailWrites⟩)
  | .record =>
    let key := fs.key activity.relpath
    match AgentFs.stored key (AgentStorage.putIfAbsent shared.storage key (.evidence activity.record)) with
    | .error error => some (goes (recordFailed error), shared)
    | .ok (.existed, after) => some (goes (.ended (.ok (.success activity.relpath))), { shared with storage := after })
    | .ok (.created, after) => some (goes .readTail, { shared with storage := after })
  | .readTail =>
    match AgentFs.get shared.storage (fs.key EVIDENCE_TAIL_SUFFIX) with
    | .error error => some (goes (recordFailed error), shared)
    | .ok found =>
      let tail := (found.bind Content.asTail).getD {}
      let entries := ⟨activity.filename, activity.clock 3⟩ :: tail.entries.filter (·.filename != activity.filename)
      some ({ activity with stage := .append ⟨entries.take TAIL_K⟩, since := shared.tailWrites }, shared)
  | .append tail =>
    match AgentFs.put shared.storage (fs.key EVIDENCE_TAIL_SUFFIX) (.tail tail) with
    | .error error => some (goes (recordFailed error), shared)
    | .ok after => some (goes (.ended (.ok (.success activity.relpath))), ⟨after, shared.tailWrites + 1⟩)
  | .ended _ => none

/-- The activities of a batch, any of which may take the next step. -/
def toolBatch (fs : AgentFs) : Threads (Contended σ) Recording := ⟨recordingStep fs⟩

end Step

end Coral.Temporal

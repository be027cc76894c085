import Coral.Node.AgentFs

/-! One step of a cycle, as both hosts execute it: a failure that the model can correct is
an observation, anything else is an error. -/

namespace Coral

structure ToolFailure where
  tool : String
  args : Json
  error : String
deriving DecidableEq

inductive StepFailure where
  | needsCorrection (text : String)
  | toolError (failures : List ToolFailure)
deriving DecidableEq

structure StepOutcome where
  observation : Observation
  failure : Option StepFailure
deriving DecidableEq

namespace StepOutcome

def ok (content : String) : StepOutcome := ⟨.success content, none⟩

def needsCorrection (text : String) : StepOutcome := ⟨.failure text, some (.needsCorrection text)⟩

end StepOutcome

section ExecuteStep

variable {σ : Type} [AgentStorage σ]

/-- A mistake of the model becomes the observation it corrects itself by. -/
def correcting (step : String) : Except FsError StepOutcome → Except FsError StepOutcome
  | .ok outcome => .ok outcome
  | .error error =>
    if error.isModelFault then .ok (.needsCorrection (step ++ ": " ++ error.toString)) else .error error

def writeOutput (fs : AgentFs) (body : String) (citations : List String) (storage : σ) :
    Except FsError StepOutcome × σ :=
  match fs.persistOutput body citations storage with
  | .ok after => (.ok (.ok "output persisted"), after)
  | .error .emptyEvidence =>
    (.ok (.needsCorrection "write_output: citations list is empty (provenance contract)"), storage)
  | .error (.evidenceNotFound path) =>
    (.ok (.needsCorrection ("write_output: cited evidence " ++ path ++ " not found on disk")), storage)
  | .error (.citationNotEvidence path) =>
    (.ok (.needsCorrection ("write_output: citation " ++ path ++ " is not under evidence/")), storage)
  | .error error => (.error error, storage)

def rewriteFs (fs : AgentFs) (clock : Clock) (ops : List FsOp) (storage : σ) : Except FsError StepOutcome × σ :=
  match fs.applyOps clock ops storage with
  | (.ok (), after) => (.ok (.ok "notes updated"), after)
  | (.error error, after) => (correcting "rewrite_fs" (.error error), after)

def listBody (path : String) (names : List String) : String :=
  if names.isEmpty then "(empty: " ++ path ++ ")" else String.intercalate "\n" names

def searchBody (query : String) (hits : List (String × String)) : String :=
  if hits.isEmpty then "(no matches for " ++ debugString query ++ ")"
  else String.intercalate "\n" (hits.map fun (file, line) => file ++ ": " ++ line)

/-- `tools` executes the calls of a `CallTools`. A step that is never executed here panics. -/
def executeStep (fs : AgentFs) (render : Content → String)
    (tools : AgentFs → List ToolCall → σ → Except FsError StepOutcome × σ) (clock : Clock) (action : Decision)
    (storage : σ) : Option (Except FsError StepOutcome × σ) :=
  match action with
  | .callTools calls => some (tools fs calls storage)
  | .writeOutput body citations => some (writeOutput fs body citations storage)
  | .rewriteFs ops => some (rewriteFs fs clock ops storage)
  | .read path => some (correcting "read" ((fs.readFile render storage path).map .ok), storage)
  | .list path => some (correcting "list" ((fs.listDir storage path).map fun names => .ok (listBody path names)), storage)
  | .search query path => some (correcting "search"
      ((fs.search render storage query path).map fun hits => .ok (searchBody query hits)), storage)
  | .idle _ | .spawnChild _ _ | .reconcileChildren _ _ | .retireChild _ _ | .replaceChild _ _ => none

end ExecuteStep

section BuildSeed

variable {σ : Type} [AgentStorage σ]

def STATUS_NOTE : String := "STATUS.md"

def STATUS_NOTE_PATH : String := "notes/STATUS.md"

def SEED_INDEX_OUTPUTS : Nat := 8

def SEED_INDEX_NOTES : Nat := 8

/-- The standing note is there, and the window does not show it. -/
def pinsStatusNote (fs : AgentFs) (storage : σ) (notes : List String) : Except FsError Bool :=
  if notes.contains STATUS_NOTE then .ok false else fs.fileExists storage STATUS_NOTE_PATH

def buildSeed (fs : AgentFs) (triggers : List Trigger) (cfg : Mandate) (storage : σ) : Except FsError Seed := do
  let window ← fs.recentNoteFilenames storage SEED_INDEX_NOTES
  let pinned ← pinsStatusNote fs storage window.filenames
  let notes := if pinned then STATUS_NOTE :: window.filenames else window.filenames
  let notesMore := if pinned then window.more.decremented else window.more
  let outputs ← fs.recentOutputFilenames storage SEED_INDEX_OUTPUTS
  return ⟨cfg, triggers, ⟨notes, outputs.filenames, notesMore, outputs.more⟩⟩

end BuildSeed

section StatusNote

def isStatusNotePath (path : String) : Bool := trimStartDotSlash path == STATUS_NOTE_PATH

/-- Whether a step of the cycle asked to write the status note. -/
def statusNoteWritten (session : Session) : Bool :=
  session.steps.any fun step =>
    match step.action with
    | .rewriteFs ops => ops.any fun
      | .writeFile path _ => isStatusNotePath path
      | .deleteFile _ => false
    | _ => false

end StatusNote

end Coral

import Coral.Node.Decision
import Coral.Node.Storage

/-! `AgentFs`: one agent's files under a prefix of the shared store. The notes are the
model's to write; everything else is the runtime's. -/

namespace Coral

def TAIL_K : Nat := 64

def CANONICAL_OUTPUT : String := "outputs/output.md"

def CANONICAL_OUTPUT_FILENAME : String := "output.md"

def EVIDENCE_TAIL_SUFFIX : String := "evidence/_tail.json"

def NOTES_TAIL_SUFFIX : String := "notes/_tail.json"

def isJsonRecord (filename : String) : Bool := endsWithText filename ".json" && filename != "_tail.json"

def isNoteRecord (filename : String) : Bool := filename != "_tail.json" && !endsWithText filename "/_tail.json"

structure RecentWindow where
  filenames : List String
  more : Remainder
deriving DecidableEq

inductive FsError where
  | emptyEvidence
  | evidenceNotFound (path : String)
  | citationNotEvidence (path : String)
  | outputNotFound
  | fileNotFound (path : String)
  | pathTraversal (path : String)
  | pathOutsideNotes (path : String)
  | reservedNotesPath (path : String)
  | conflictAlternativesTooFew (count : Nat)
  | storage (key : String) (source : StorageError)
deriving DecidableEq

namespace FsError

def toString : FsError → String
  | .emptyEvidence => "output rejected: citation list is empty (provenance contract)"
  | .evidenceNotFound path => "output rejected: evidence path " ++ path ++ " not found on disk"
  | .citationNotEvidence path => "citation rejected: " ++ path ++ " is not under evidence/"
  | .outputNotFound => "no canonical output found on disk"
  | .fileNotFound path => "file " ++ path ++ " not found"
  | .pathTraversal path => "path traversal rejected: " ++ path
  | .pathOutsideNotes path => "path outside notes/ rejected: " ++ path
  | .reservedNotesPath path => "path reserved (runtime-owned): " ++ path
  | .conflictAlternativesTooFew count =>
    "conflict rejected: only " ++ ToString.toString count ++ " alternatives (need >= 2)"
  | .storage key source => "storage error at " ++ key ++ ": " ++ source.toString

/-- `agent_core::is_model_fault`: every error but the store's. -/
def isModelFault : FsError → Bool
  | .storage _ _ => false
  | _ => true

end FsError

/-- `serde_json::from_slice` as a `TailObject`. -/
def Content.asTail : Content → Option TailObject
  | .tail object => some object
  | _ => none

structure AgentFs where
  storagePrefix : String
deriving DecidableEq

namespace AgentFs

def attach (storagePrefix : String) : AgentFs :=
  ⟨if storagePrefix ≠ "" ∧ endsWithText storagePrefix "/" = false then storagePrefix ++ "/" else storagePrefix⟩

def key (fs : AgentFs) (tail : String) : String := fs.storagePrefix ++ tail

/-- A path to read. The empty one is the agent's root. -/
def cleanRelpath (raw : String) : Except FsError String :=
  match plainParts (components raw) with
  | some parts => .ok (joinPath parts)
  | none => .error (.pathTraversal raw)

/-- The key of a path to write, which has to name a file below `notes/`. -/
def resolveNotesKey (fs : AgentFs) (raw : String) : Except FsError String :=
  match plainParts (components raw) with
  | none | some [] => .error (.pathTraversal raw)
  | some (first :: rest) =>
    if first.text = "notes" ∧ rest ≠ [] then .ok (fs.key ("notes/" ++ joinPath rest))
    else .error (.pathOutsideNotes raw)

section Store

variable {σ : Type} [AgentStorage σ]

def stored {α : Type} (key : String) : Except StorageError α → Except FsError α
  | .ok value => .ok value
  | .error source => .error (.storage key source)

def get (storage : σ) (key : String) : Except FsError (Option Content) := stored key (AgentStorage.get storage key)

def put (storage : σ) (key : String) (value : Content) : Except FsError σ :=
  stored key (AgentStorage.put storage key value)

/-- The entry moves to the front, and what is past the bound falls off the tail. -/
def appendToTail (fs : AgentFs) (suffix filename : String) (now : DateTime) (storage : σ) : Except FsError σ := do
  let existing ← get storage (fs.key suffix)
  let tail := (existing.bind Content.asTail).getD {}
  let entries := ⟨filename, now⟩ :: tail.entries.filter (·.filename != filename)
  put storage (fs.key suffix) (.tail ⟨entries.take TAIL_K⟩)

def removeFromTail (fs : AgentFs) (suffix filename : String) (storage : σ) : Except FsError σ := do
  match ← get storage (fs.key suffix) with
  | none => return storage
  | some content =>
    let tail := content.asTail.getD {}
    let entries := tail.entries.filter (·.filename != filename)
    if entries.length = tail.entries.length then return storage
    put storage (fs.key suffix) (.tail ⟨entries⟩)

def listAll (storage : σ) (start : String) : Except FsError (List String) := do
  return (← stored start (AgentStorage.list storage start none usizeMax)).keys

/-- A tail that some file on disk is missing from is rebuilt from the names, the last first. -/
def reconcileTail (fs : AgentFs) (suffix indexed : String) (isRecord : String → Bool) (now : DateTime) (storage : σ) :
    Except FsError σ := do
  let keys ← listAll storage (fs.key indexed)
  let onDisk := (keys.filterMap fun key => stripStart key (fs.key indexed)).filter isRecord
  if onDisk.isEmpty then return storage
  let sorted : List String := onDisk.insertionSort fun first second => first.toList ≤ second.toList
  let tail := ((← get storage (fs.key suffix)).bind Content.asTail).getD {}
  if sorted.all fun filename => tail.entries.any (·.filename == filename) then return storage
  let chosen := (sorted.drop (sorted.length - TAIL_K)).reverse
  let entries := chosen.map fun filename =>
    ⟨filename, ((tail.entries.reverse.find? (·.filename == filename)).map (·.addedAt)).getD now⟩
  put storage (fs.key suffix) (.tail ⟨entries⟩)

def newWithStorage (storagePrefix : String) (mandate : Mandate) (clock : Clock) (storage : σ) :
    Except FsError (AgentFs × σ) := do
  let fs := attach storagePrefix
  let existing ← get storage (fs.key "mandate.md")
  let storage ← if existing.isNone then put storage (fs.key "mandate.md") (.text mandate.text) else .ok storage
  let storage ← fs.reconcileTail EVIDENCE_TAIL_SUFFIX "evidence/" isJsonRecord (clock 0) storage
  let storage ← fs.reconcileTail NOTES_TAIL_SUFFIX "notes/" isNoteRecord (clock 1) storage
  return (fs, storage)

def evidenceRelpathChecked (path : String) : Except FsError String := do
  let rel ← cleanRelpath path
  if rel = "evidence" ∨ startsWithText rel "evidence/" = false ∨ rel = EVIDENCE_TAIL_SUFFIX then
    .error (.citationNotEvidence path)
  return rel

def evidenceMustExist (fs : AgentFs) (storage : σ) (path : String) : Except FsError Unit := do
  let rel ← evidenceRelpathChecked path
  match ← get storage (fs.key rel) with
  | some _ => return ()
  | none => .error (.evidenceNotFound path)

def readEvidenceBytes (fs : AgentFs) (storage : σ) (path : String) : Except FsError Content := do
  let rel ← evidenceRelpathChecked path
  match ← get storage (fs.key rel) with
  | some content => return content
  | none => .error (.evidenceNotFound path)

def citationsExist (fs : AgentFs) (storage : σ) : List String → Except FsError Unit
  | [] => .ok ()
  | path :: citations => do
    fs.evidenceMustExist storage path
    fs.citationsExist storage citations

/-- The body alone is written, and only if every citation resolves. -/
def persistOutput (fs : AgentFs) (body : String) (citations : List String) (storage : σ) : Except FsError σ := do
  if citations.isEmpty then .error .emptyEvidence
  fs.citationsExist storage citations
  put storage (fs.key CANONICAL_OUTPUT) (.text body)

/-- The first pass of `apply_ops`, which touches nothing. -/
def planOps (fs : AgentFs) : List FsOp → Except FsError (List (String × FsOp))
  | [] => .ok []
  | op :: ops => do
    let resolved ← fs.resolveNotesKey op.path
    let rel := (stripStart resolved (fs.key "notes/")).getD resolved
    if isNoteRecord rel = false then .error (.reservedNotesPath op.path)
    let planned ← fs.planOps ops
    return (resolved, op) :: planned

/-- The store as a call leaves it, also one that fails. -/
def settle (storage : σ) : Except FsError σ → Except FsError Unit × σ
  | .ok after => (.ok (), after)
  | .error error => (.error error, storage)

/-- One planned operation: the note first, then the recency sidecar. -/
def executeOp (fs : AgentFs) (now : DateTime) (key : String) (op : FsOp) (storage : σ) : Except FsError Unit × σ :=
  let rel := stripStart key (fs.key "notes/")
  match op with
  | .writeFile _ content =>
    match put storage key (.text content) with
    | .error error => (.error error, storage)
    | .ok written =>
      match rel with
      | some rel => settle written (fs.appendToTail NOTES_TAIL_SUFFIX rel now written)
      | none => (.ok (), written)
  | .deleteFile _ =>
    match stored key (AgentStorage.delete storage key) with
    | .error error => (.error error, storage)
    | .ok deleted =>
      match rel with
      | some rel => settle deleted (fs.removeFromTail NOTES_TAIL_SUFFIX rel deleted)
      | none => (.ok (), deleted)

def executeOps (fs : AgentFs) (clock : Clock) : Nat → List (String × FsOp) → σ → Except FsError Unit × σ
  | _, [], storage => (.ok (), storage)
  | reading, (key, op) :: planned, storage =>
    match fs.executeOp (clock reading) key op storage with
    | (.ok (), after) => fs.executeOps clock (reading + 1) planned after
    | (.error error, after) => (.error error, after)

/-- A bad path anywhere in the batch rejects all of it before any write. -/
def applyOps (fs : AgentFs) (clock : Clock) (ops : List FsOp) (storage : σ) : Except FsError Unit × σ :=
  match fs.planOps ops with
  | .ok planned => fs.executeOps clock 0 planned storage
  | .error error => (.error error, storage)

def readFile (fs : AgentFs) (render : Content → String) (storage : σ) (path : String) : Except FsError String := do
  let rel ← cleanRelpath path
  match ← get storage (fs.key rel) with
  | some content => return render content
  | none => .error (.fileNotFound path)

def fileExists (fs : AgentFs) (storage : σ) (path : String) : Except FsError Bool := do
  let rel ← cleanRelpath path
  return (← get storage (fs.key rel)).isSome

/-- The prefix that the keys in a directory have. -/
def dirPrefix (fs : AgentFs) (path : String) : Except FsError String := do
  let rel ← cleanRelpath path
  return fs.key (if rel = "" ∨ endsWithText rel "/" then rel else rel ++ "/")

/-- The files and the directories right under the path, in order. -/
def listDir (fs : AgentFs) (storage : σ) (path : String) : Except FsError (List String) := do
  let start ← fs.dirPrefix path
  let keys ← listAll storage start
  let names := keys.filterMap fun key =>
    match stripStart key start with
    | none | some "" | some "_tail.json" => none
    | some rest =>
      match segments rest with
      | subdir :: _ :: _ => some (subdir ++ "/")
      | _ => some rest
  return names.dedup.insertionSort fun first second => first.toList ≤ second.toList

def hit (render : Content → String) (query : String) (content : Content) : Option String :=
  (lines (render content)).find? (containsText · query) |>.map trim

def searchPrefix (fs : AgentFs) : Option String → Except FsError String
  | some path => fs.dirPrefix path
  | none => .ok fs.storagePrefix

def hits (fs : AgentFs) (render : Content → String) (query : String) (keys : List String)
    (blobs : List (Option Content)) : List (String × String) :=
  (keys.zip blobs).filterMap fun (key, blob) =>
    blob.bind fun content =>
      (hit render query content).map fun line => ((stripStart key fs.storagePrefix).getD key, line)

/-- The first matching line of each file in the scope, the sidecars left out. -/
def search (fs : AgentFs) (render : Content → String) (storage : σ) (query : String) (path : Option String) :
    Except FsError (List (String × String)) := do
  let start ← fs.searchPrefix path
  let listed ← listAll storage start
  let keys := listed.filter fun key => !endsWithText key "/_tail.json"
  let blobs ← stored start (AgentStorage.getMany storage keys)
  return (fs.hits render query keys blobs).insertionSort fun first second => first.1.toList < second.1.toList ∨
    first.1 = second.1 ∧ first.2.toList ≤ second.2.toList

/-- Recency comes from the sidecar, which below its capacity is taken for the complete set. -/
def recentWindow (fs : AgentFs) (storage : σ) (suffix indexed : String) (n : Nat) : Except FsError RecentWindow := do
  if n = 0 then return ⟨[], .none⟩
  match (← get storage (fs.key suffix)).bind Content.asTail with
  | some tail =>
    let take := min tail.entries.length n
    let filenames := (tail.entries.take take).map (·.filename)
    if tail.entries.length = TAIL_K then return ⟨filenames, .atLeast (TAIL_K - take)⟩
    match tail.entries.length - take with
    | 0 => return ⟨filenames, .none⟩
    | left => return ⟨filenames, .exactly left⟩
  | none =>
    let all ← fs.listDir storage indexed
    let filenames := all.drop (all.length - n)
    match all.length - filenames.length with
    | 0 => return ⟨filenames, .none⟩
    | left => return ⟨filenames, .exactly left⟩

def recentNoteFilenames (fs : AgentFs) (storage : σ) (n : Nat) : Except FsError RecentWindow :=
  fs.recentWindow storage NOTES_TAIL_SUFFIX "notes/" n

/-- The one output, if it is there. -/
def recentOutputFilenames (fs : AgentFs) (storage : σ) (_n : Nat) : Except FsError RecentWindow := do
  let start := fs.key "outputs/"
  let page ← stored start (AgentStorage.list storage start none 1)
  let present := page.keys.any (endsWithText · CANONICAL_OUTPUT_FILENAME)
  return ⟨if present then [CANONICAL_OUTPUT_FILENAME] else [], .none⟩

end Store

end AgentFs

end Coral

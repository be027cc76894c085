import Coral.Library.Sha256
import Coral.Node.AgentFs

/-! Evidence: what a tool answered, under a name that is read off its content, and the
window on what was recorded last. -/

namespace Coral
open Coral.Library

namespace Json

mutual
/-- The value as `write_canonical` writes it: every object with its keys in order. -/
def canonical : Json → Json
  | .array items => .array (canonicalItems items)
  | .object members =>
    .object ((canonicalMembers members).insertionSort fun first second => first.1.toList ≤ second.1.toList)
  | value => value

def canonicalItems : List Json → List Json
  | [] => []
  | item :: items => canonical item :: canonicalItems items

def canonicalMembers : List (String × Json) → List (String × Json)
  | [] => []
  | (key, item) :: members => (key, canonical item) :: canonicalMembers members
end

end Json

/-- The bytes that `write_canonical` appends. -/
def Json.writeCanonical (value : Json) : ByteArray := (String.ofList value.canonical.render).toUTF8

/-- The envelope of `EvidenceId::new`, as it is hashed. -/
def EvidenceId.envelope (tool : String) (args result : Json) : ByteArray :=
  let envelope := Json.object [("args", args.canonical), ("result", result.canonical), ("tool", .string tool)]
  (String.ofList envelope.render).toUTF8

def EvidenceId.new (tool : String) (args result : Json) : EvidenceId :=
  ⟨String.ofList (hexDigits (Sha256.digest (envelope tool args result).toList))⟩

def EvidenceRecord.new (tool : String) (args result : Json) (createdAt : DateTime) : EvidenceRecord :=
  ⟨.new tool args result, tool, args, result, createdAt⟩

def SLUG_BODY_MAX : Nat := 80

def kebab : Bool → List Char → List Char
  | _, [] => []
  | afterDash, char :: rest =>
    let lower := char.toLower
    if lower.isAlphanum then lower :: kebab false rest
    else if afterDash then kebab true rest
    else '-' :: kebab true rest

def dropDashes (body : List Char) : List Char := (body.reverse.dropWhile (· = '-')).reverse

def slug (seed : String) : String :=
  let body := dropDashes (kebab true seed.toList)
  String.ofList (if SLUG_BODY_MAX < body.length then dropDashes (body.take SLUG_BODY_MAX) else body)

/-- The first eight digits of the id, after what the seed comes to in kebab case. -/
def evidenceRelpath (slugSeed : String) (id : EvidenceId) : String :=
  let suffix := String.ofList (id.hex.toList.take 8)
  if slug slugSeed = "" then "evidence/" ++ suffix ++ ".json"
  else "evidence/" ++ slug slugSeed ++ "-" ++ suffix ++ ".json"

/-- The first eight digits of the seed's own hash, after what the seed comes to in kebab case. -/
def claimSlug (seed : String) : String :=
  let suffix := String.ofList (hexDigits ((Sha256.digest seed.toUTF8.toList).take 4))
  if slug seed = "" then suffix else slug seed ++ "-" ++ suffix

namespace AgentFs

def claimKey (fs : AgentFs) (seed : String) : String := fs.key ("claims/" ++ claimSlug seed ++ ".json")

variable {σ : Type} [AgentStorage σ]

/-- A record that is there already stays as it is, and keeps its place in the tail. -/
def recordEvidence (fs : AgentFs) (now : DateTime) (record : EvidenceRecord) (slugSeed : String) (storage : σ) :
    Except FsError String × σ :=
  let relpath := evidenceRelpath slugSeed record.id
  match stored (fs.key relpath) (AgentStorage.putIfAbsent storage (fs.key relpath) (.evidence record)) with
  | .error error => (.error error, storage)
  | .ok (.existed, after) => (.ok relpath, after)
  | .ok (.created, after) =>
    let filename := (stripStart relpath "evidence/").getD relpath
    match fs.appendToTail EVIDENCE_TAIL_SUFFIX filename now after with
    | .error error => (.error error, after)
    | .ok final => (.ok relpath, final)

end AgentFs

/-- What a read of records ends with: the store fails, or some bytes are no record. -/
inductive ReadError where
  | fs (error : FsError)
  | malformed
deriving DecidableEq

/-- `serde_json::from_slice` as an `EvidenceRecord`. -/
def Content.asEvidence : Content → Option EvidenceRecord
  | .evidence record => some record
  | _ => none

namespace AgentFs

section Window

variable {σ α : Type} [AgentStorage σ]

def read {β : Type} : Except FsError β → Except ReadError β
  | .ok value => .ok value
  | .error error => .error (.fs error)

/-- What is absent is left out. -/
def decodeAll (decode : Content → Option α) : List (Option Content) → Except ReadError (List α)
  | [] => .ok []
  | none :: blobs => decodeAll decode blobs
  | some content :: blobs =>
    match decode content with
    | none => .error .malformed
    | some value => do
      let values ← decodeAll decode blobs
      return value :: values

def readKeys (decode : Content → Option α) (start : String) (keys : List String) (storage : σ) :
    Except ReadError (List α) := do
  if keys = [] then return []
  let blobs ← read (stored start (AgentStorage.getMany storage keys))
  decodeAll decode blobs

/-- The first entries of the tail are the latest; they are read in the order of their names. -/
def readKeysForTail (decode : Content → Option α) (start : String) (tail : TailObject) (n : Nat) (storage : σ) :
    Except ReadError (List α) :=
  let taken := tail.entries.take (min tail.entries.length n)
  let filenames : List String :=
    (taken.map (·.filename)).insertionSort fun first second => first.toList ≤ second.toList
  readKeys decode start (filenames.map (start ++ ·)) storage

def readRecentJson (decode : Content → Option α) (start : String) (n : Nat) (storage : σ) :
    Except ReadError (List α) := do
  let listed ← read (listAll storage start)
  let found := (listed.filter (endsWithText · ".json")).filter (!endsWithText · "/_tail.json")
  let keys : List String := found.insertionSort fun first second => first.toList ≤ second.toList
  readKeys decode start (keys.drop (keys.length - n)) storage

/-- A tail at its capacity is only used where names grow with time. -/
def readRecentWindowWithTail (fs : AgentFs) (decode : Content → Option α) (start suffix : String) (n : Nat)
    (lexMonotonic : Bool) (storage : σ) : Except ReadError (List α) := do
  if n = 0 then return []
  let found ← read (get storage (fs.key suffix))
  match found.bind Content.asTail with
  | some tail =>
    if tail.entries.length < TAIL_K ∨ lexMonotonic = true ∧ n ≤ TAIL_K then
      readKeysForTail decode start tail n storage
    else readRecentJson decode start n storage
  | none => readRecentJson decode start n storage

def listRecentEvidence (fs : AgentFs) (n : Nat) (storage : σ) : Except ReadError (List EvidenceRecord) :=
  fs.readRecentWindowWithTail Content.asEvidence (fs.key "evidence/") EVIDENCE_TAIL_SUFFIX n false storage

end Window

end AgentFs

end Coral

import Coral.Graph.Store
import Coral.Node.Evidence
import Coral.Node.Wire

/-! `persist_output`: the body goes to the agent's files, and what it cites to the
structural database. -/

namespace Coral

/-- What `new_with_storage` comes to, with the store as it leaves it where it fails. -/
def AgentFs.openWithStorage {σ : Type} [AgentStorage σ] (storagePrefix : String) (mandate : Mandate) (clock : Clock)
    (storage : σ) : Except FsError AgentFs × σ :=
  let fs := attach storagePrefix
  match get storage (fs.key "mandate.md") with
  | .error error => (.error error, storage)
  | .ok existing =>
    match settle storage
        (if existing.isNone then put storage (fs.key "mandate.md") (.text mandate.text) else .ok storage) with
    | (.error error, mandated) => (.error error, mandated)
    | (.ok (), mandated) =>
      match settle mandated (fs.reconcileTail EVIDENCE_TAIL_SUFFIX "evidence/" isJsonRecord (clock 0) mandated) with
      | (.error error, indexed) => (.error error, indexed)
      | (.ok (), indexed) =>
        match settle indexed (fs.reconcileTail NOTES_TAIL_SUFFIX "notes/" isNoteRecord (clock 1) indexed) with
        | (.error error, opened) => (.error error, opened)
        | (.ok (), opened) => (.ok fs, opened)

/-- `OutputId::new`. -/
def OutputId.new (body : String) : OutputId :=
  ⟨String.ofList (Library.hexDigits (Library.Sha256.digest body.toUTF8.toList))⟩

namespace Temporal

/-- What is taken from git, `serde` and `chrono`: a blob's address, what the bytes of a
file are read as, an agent's id read off a JSON value, and the text of a time. -/
structure Codec where
  ofBytes : Content → BlobSha
  fromSlice : Content → Option EvidenceRecord
  fromUtf8 : Content → Option String
  fromValue : Json → Option AgentId
  rfc3339 : DateTime → String

inductive PersistError where
  | fs (error : FsError)
  | serde
  | missing (field : String)
  | db (error : DbError)
deriving DecidableEq

/-- The cited end, by the bytes of the record that is cited. -/
def resolveRecord (codec : Codec) (selfAgentId : AgentId) (citedPath : String) (bytes : Content) :
    Except PersistError (AgentId × String × BlobSha) :=
  match codec.fromSlice bytes with
  | none => .error .serde
  | some record =>
    if record.tool = "reconcile" then
      match record.args.get? "child_agent_id" with
      | none => .error (.missing "child_agent_id")
      | some value =>
        match codec.fromValue value with
        | none => .error .serde
        | some childAgentId =>
          match (record.args.get? "child_output_blob_sha").bind Json.asStr with
          | none => .error (.missing "child_output_blob_sha")
          | some childSha => .ok (childAgentId, CANONICAL_OUTPUT, ⟨childSha⟩)
    else .ok (selfAgentId, citedPath, codec.ofBytes bytes)

structure PersistOutputOutput where
  outputId : Option OutputId
  observation : Observation
deriving DecidableEq

/-- A mistake of the model becomes the observation it corrects itself by. -/
def persistOutcome : Except PersistError OutputId → Except PersistError PersistOutputOutput
  | .ok outputId => .ok ⟨some outputId, .success "output persisted"⟩
  | .error (.fs error) =>
    if error.isModelFault then .ok ⟨none, .failure ("write_output: " ++ error.toString)⟩ else .error (.fs error)
  | .error error => .error error

section PersistOutput

variable {σ δ : Type} [AgentStorage σ] [StructuralDbStore δ]

def resolveCited (codec : Codec) (fs : AgentFs) (selfAgentId : AgentId) (storage : σ) (citedPath : String) :
    Except PersistError (AgentId × String × BlobSha) :=
  match fs.readEvidenceBytes storage citedPath with
  | .error error => .error (.fs error)
  | .ok bytes => resolveRecord codec selfAgentId citedPath bytes

/-- One row for each citation, up to the first that fails. -/
def addCitations (codec : Codec) (fs : AgentFs) (agentId : AgentId) (outputSha : BlobSha) (storage : σ) :
    List String → δ → Except PersistError Unit × δ
  | [], db => (.ok (), db)
  | cited :: citations, db =>
    match resolveCited codec fs agentId storage cited with
    | .error error => (.error error, db)
    | .ok (citedAgent, citedPath, citedSha) =>
      match StructuralDbStore.addCitation db
          ⟨agentId, CANONICAL_OUTPUT, outputSha, citedAgent, citedPath, citedSha⟩ with
      | .error error => (.error (.db error), db)
      | .ok after => addCitations codec fs agentId outputSha storage citations after

/-- Both stores as the call leaves them, also one that fails. -/
def persistOutputImpl (codec : Codec) (clock : Clock) (agentId : AgentId) (storagePrefix body : String)
    (citations : List String) (storage : σ) (db : δ) : Except PersistError OutputId × σ × δ :=
  match AgentFs.openWithStorage storagePrefix (.new "" ⟨0⟩ none) clock storage with
  | (.error error, opened) => (.error (.fs error), opened, db)
  | (.ok fs, opened) =>
    match fs.persistOutput body citations opened with
    | .error error => (.error (.fs error), opened, db)
    | .ok written =>
      let outputSha := codec.ofBytes (.text body)
      match StructuralDbStore.setFileVersion db agentId CANONICAL_OUTPUT outputSha with
      | .error error => (.error (.db error), written, db)
      | .ok indexed =>
        match addCitations codec fs agentId outputSha written citations indexed with
        | (.error error, cited) => (.error error, written, cited)
        | (.ok (), cited) => (.ok (.new body), written, cited)

end PersistOutput

end Temporal

end Coral

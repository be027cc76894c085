import Coral.Proofs.Authorship
import Coral.Proofs.TailRebuild
import Coral.Temporal.Provenance

/-! `persist_output` under faults. The evidence is never written, so every attempt resolves
the citations alike, and whatever an attempt leaves behind the next one finds done. -/

namespace Coral.Proofs
open Coral.Library Coral.Temporal LawfulStorage

/-- A store that fails: every write after so many, and reads by the writes still to come. -/
structure Faulty (σ : Type) where
  storage : σ
  writes : Nat
  unreadable : Nat → String → Bool

namespace Faulty

variable {σ : Type} [AgentStorage σ]

def fault : StorageError := .transient "unavailable"

def whileWriting {α : Type} (store : Faulty σ) (call : Except StorageError α) : Except StorageError α :=
  if store.writes = 0 then .error fault else call

def whileReading {α : Type} (store : Faulty σ) (key : String) (call : Except StorageError α) : Except StorageError α :=
  if store.unreadable store.writes key then .error fault else call

def wrote (store : Faulty σ) (after : σ) : Faulty σ := { store with storage := after, writes := store.writes - 1 }

instance : AgentStorage (Faulty σ) where
  put store key value := store.whileWriting ((AgentStorage.put store.storage key value).map store.wrote)
  putIfAbsent store key value := store.whileWriting
    ((AgentStorage.putIfAbsent store.storage key value).map fun (outcome, after) => (outcome, store.wrote after))
  get store key := store.whileReading key (AgentStorage.get store.storage key)
  delete store key := store.whileWriting ((AgentStorage.delete store.storage key).map store.wrote)
  list store start after limit := store.whileReading start (AgentStorage.list store.storage start after limit)

end Faulty

/-- A database that fails every call after so many. A call that takes effect while its answer
is lost ends the attempt where the failing of the next call does; of the last call, it leaves
all that the attempt does. -/
structure FaultyDb where
  db : StructuralDb
  calls : Nat

namespace FaultyDb

def whileUp (store : FaultyDb) (call : Except DbError StructuralDb) : Except DbError FaultyDb :=
  if store.calls = 0 then .error .unavailable else call.map fun after => ⟨after, store.calls - 1⟩

instance : StructuralDbStore FaultyDb where
  addAgent store graphId name agentId := store.whileUp (store.db.addAgent graphId name agentId)
  addEdge store parent child := store.whileUp (store.db.addEdge parent child)
  listToolDefIdsForGraph store graphId :=
    if store.calls = 0 then .error .unavailable else .ok (store.db.listToolDefIdsForGraph graphId)
  setFileVersion store agentId filepath blobSha := store.whileUp (store.db.setFileVersion agentId filepath blobSha)
  addCitation store row := store.whileUp (store.db.addCitation row)

theorem whileUp_ok {store after : FaultyDb} {call : Except DbError StructuralDb} (ended : store.whileUp call = .ok after) :
    call = .ok after.db := by
  unfold whileUp at ended
  split at ended
  · cases ended
  · cases call with
    | error error => cases ended
    | ok db =>
      cases ended
      rfl

end FaultyDb

structure PersistCall where
  agentId : AgentId
  storagePrefix : String
  body : String
  citations : List String

/-- One attempt at a call: when it is made, and where it fails. -/
structure Faults where
  clock : Clock
  writes : Nat
  unreadable : Nat → String → Bool
  calls : Nat

section Attempts

variable {σ : Type} [AgentStorage σ] (codec : Codec) (call : PersistCall)

def PersistCall.fs : AgentFs := .attach call.storagePrefix

def PersistCall.attempt (faults : Faults) (stores : σ × StructuralDb) : Except PersistError OutputId × σ × StructuralDb :=
  let (result, storage, db) := persistOutputImpl codec faults.clock call.agentId call.storagePrefix call.body
    call.citations (⟨stores.1, faults.writes, faults.unreadable⟩ : Faulty σ) (⟨stores.2, faults.calls⟩ : FaultyDb)
  (result, storage.storage, db.db)

/-- The same call, again and again. -/
def persisting : Machine (σ × StructuralDb) Faults (Except PersistError OutputId) :=
  ⟨fun stores faults => let (result, after) := call.attempt codec faults stores; some (after, [result])⟩

variable [LawfulStorage σ]

def citedBytes (fs : AgentFs) (storage : σ) (path : String) : Option Content :=
  match AgentFs.evidenceRelpathChecked path with
  | .ok rel => viewAt storage (fs.key rel)
  | .error _ => none

/-- The row that a citation comes to, by the record as it is in the store. -/
def PersistCall.row (storage : σ) (path : String) : Option Citation := do
  let bytes ← citedBytes call.fs storage path
  let (citedAgent, citedPath, citedSha) ← (resolveRecord codec call.agentId path bytes).toOption
  return ⟨call.agentId, CANONICAL_OUTPUT, codec.ofBytes (.text call.body), citedAgent, citedPath, citedSha⟩

def PersistCall.Cites (storage : σ) (row : Citation) : Prop := ∃ path ∈ call.citations, call.row codec storage path = some row

end Attempts

/-- The calls that come to an end are those of the store inside. -/
structure Through {σ τ : Type} [AgentStorage σ] [AgentStorage τ] (inner : τ → σ) : Prop where
  put : ∀ {store after : τ} {key : String} {value : Content}, AgentStorage.put store key value = .ok after →
    AgentStorage.put (inner store) key value = .ok (inner after)
  get : ∀ {store : τ} {key : String} {found : Option Content}, AgentStorage.get store key = .ok found →
    AgentStorage.get (inner store) key = .ok found

section Calls

variable {σ τ : Type} [AgentStorage σ] [AgentStorage τ] {inner : τ → σ} {store after : τ} {key : String}

theorem through_id : Through (fun store : σ => store) := ⟨fun written => written, fun got => got⟩

theorem through_faulty : Through (Faulty.storage : Faulty σ → σ) where
  put := by
    intro store after key value written
    change store.whileWriting ((AgentStorage.put store.storage key value).map store.wrote) = .ok after at written
    unfold Faulty.whileWriting at written
    split at written
    · cases written
    · cases inner : AgentStorage.put store.storage key value with
      | error source =>
        rw [inner] at written
        cases written
      | ok storage =>
        rw [inner] at written
        cases written
        rfl
  get := by
    intro store key found got
    change store.whileReading key (AgentStorage.get store.storage key) = .ok found at got
    unfold Faulty.whileReading at got
    split at got
    · cases got
    · exact got

theorem Through.put_fs (through : Through inner) {value : Content} (written : AgentFs.put store key value = .ok after) :
    AgentFs.put (inner store) key value = .ok (inner after) := by
  unfold AgentFs.put
  rw [through.put (raw_ok written)]
  rfl

theorem Through.get_fs (through : Through inner) {found : Option Content}
    (got : AgentFs.get store key = .ok found) : AgentFs.get (inner store) key = .ok found := by
  unfold AgentFs.get
  rw [through.get (raw_ok got)]
  rfl

/-- A call of the store fails by no mistake of the model. -/
theorem stored_error {α : Type} {result : Except StorageError α} {error : FsError}
    (failed : AgentFs.stored key result = .error error) : error.isModelFault = false := by
  cases result with
  | ok value => cases failed
  | error source =>
    cases failed
    rfl

end Calls

section Opening

variable {σ : Type} [AgentStorage σ]

/-- Opening writes the mandate and the two sidecars alone. -/
def openedKeys : List String := ["mandate.md", EVIDENCE_TAIL_SUFFIX, NOTES_TAIL_SUFFIX]

theorem reconcileTail_put {fs : AgentFs} {suffix indexed : String} {isRecord : String → Bool} {now : DateTime}
    {storage after : σ} (reconciled : fs.reconcileTail suffix indexed isRecord now storage = .ok after) :
    after = storage ∨ ∃ value, AgentFs.put storage (fs.key suffix) value = .ok after := by
  unfold AgentFs.reconcileTail at reconciled
  obtain ⟨keys, -, reconciled⟩ := bind_ok reconciled
  simp only at reconciled
  split at reconciled
  · cases reconciled
    exact .inl rfl
  · obtain ⟨found, -, reconciled⟩ := bind_ok reconciled
    split at reconciled
    · cases reconciled
      exact .inl rfl
    · exact .inr ⟨_, reconciled⟩

/-- Where it comes to an end, opening is `new_with_storage`. -/
theorem newWithStorage_open (raw : String) (mandate : Mandate) (clock : Clock) (storage : σ) :
    AgentFs.newWithStorage raw mandate clock storage =
      match AgentFs.openWithStorage raw mandate clock storage with
      | (.ok fs, after) => .ok (fs, after)
      | (.error error, _) => .error error := by
  unfold AgentFs.newWithStorage AgentFs.openWithStorage
  simp only
  cases AgentFs.get storage ((AgentFs.attach raw).key "mandate.md") with
  | error error => rfl
  | ok existing =>
    simp only [bind, Except.bind]
    split
    · cases AgentFs.put storage ((AgentFs.attach raw).key "mandate.md") (.text mandate.text) with
      | error error => rfl
      | ok mandated =>
        simp only [AgentFs.settle]
        cases AgentFs.reconcileTail _ EVIDENCE_TAIL_SUFFIX "evidence/" isJsonRecord (clock 0) mandated with
        | error error => rfl
        | ok indexed =>
          simp only
          cases AgentFs.reconcileTail _ NOTES_TAIL_SUFFIX "notes/" isNoteRecord (clock 1) indexed <;> rfl
    · simp only [AgentFs.settle]
      cases AgentFs.reconcileTail _ EVIDENCE_TAIL_SUFFIX "evidence/" isJsonRecord (clock 0) storage with
      | error error => rfl
      | ok indexed =>
        simp only
        cases AgentFs.reconcileTail _ NOTES_TAIL_SUFFIX "notes/" isNoteRecord (clock 1) indexed <;> rfl

/-- What every write of those keys keeps, opening keeps, wherever it stops. -/
theorem openWithStorage_keeps {holds : σ → Prop} {raw : String} {mandate : Mandate} {clock : Clock} {storage after : σ}
    {result : Except FsError AgentFs} (opened : AgentFs.openWithStorage raw mandate clock storage = (result, after))
    (initial : holds storage)
    (kept : ∀ before after key value, key ∈ openedKeys → holds before →
      AgentFs.put before ((AgentFs.attach raw).key key) value = .ok after → holds after) :
    holds after ∧ ∀ fs, result = .ok fs → fs = .attach raw := by
  have settled : ∀ {before after : σ} {outcome : Except FsError σ} {ended : Except FsError Unit},
      AgentFs.settle before outcome = (ended, after) → holds before → (∀ after, outcome = .ok after → holds after) →
      holds after := by
    intro before after outcome ended settled held done
    cases outcome with
    | error error =>
      cases settled
      exact held
    | ok other =>
      cases settled
      exact done _ rfl
  have reconciled : ∀ {before after : σ} {key indexed : String} {isRecord : String → Bool} {now : DateTime}
      {ended : Except FsError Unit}, AgentFs.settle before
        ((AgentFs.attach raw).reconcileTail key indexed isRecord now before) = (ended, after) → key ∈ openedKeys →
      holds before → holds after := by
    intro before after key indexed isRecord now ended reconciled member held
    refine settled reconciled held fun final done => ?_
    rcases reconcileTail_put done with rfl | ⟨value, written⟩
    · exact held
    · exact kept before final key value member held written
  unfold AgentFs.openWithStorage at opened
  simp only at opened
  split at opened
  · cases opened
    exact ⟨initial, nofun⟩
  · have mandated : ∀ {ended : Except FsError Unit} {middle : σ} {existing : Option Content},
        AgentFs.settle storage (if existing.isNone = true then
          AgentFs.put storage ((AgentFs.attach raw).key "mandate.md") (.text mandate.text) else .ok storage) =
          (ended, middle) → holds middle := by
      intro ended middle existing stopped
      refine settled stopped initial fun final done => ?_
      split at done
      · exact kept storage final _ _ (by decide) initial done
      · cases done
        exact initial
    split at opened
    · rename_i stopped
      cases opened
      exact ⟨mandated stopped, nofun⟩
    · rename_i middle started
      have first := mandated started
      split at opened
      · rename_i stopped
        cases opened
        exact ⟨reconciled stopped (by decide) first, nofun⟩
      · rename_i indexed evidence
        have second := reconciled evidence (by decide) first
        split at opened
        · rename_i stopped
          cases opened
          exact ⟨reconciled stopped (by decide) second, nofun⟩
        · rename_i final notes
          cases opened
          refine ⟨reconciled notes (by decide) second, ?_⟩
          intro fs same
          cases same
          rfl

/-- Persisting an output writes the output besides. -/
theorem persistOutputImpl_keeps {δ : Type} [StructuralDbStore δ] {holds : σ → Prop} {codec : Codec} {clock : Clock}
    {agentId : AgentId} {raw body : String} {citations : List String} {storage after : σ} {before final : δ}
    {result : Except PersistError OutputId}
    (ran : persistOutputImpl codec clock agentId raw body citations storage before = (result, after, final))
    (initial : holds storage)
    (kept : ∀ before after key value, key ∈ CANONICAL_OUTPUT :: openedKeys → holds before →
      AgentFs.put before ((AgentFs.attach raw).key key) value = .ok after → holds after) : holds after := by
  unfold persistOutputImpl at ran
  generalize opening : AgentFs.openWithStorage raw (.new "" ⟨0⟩ none) clock storage = ended at ran
  obtain ⟨outcome, opened⟩ := ended
  obtain ⟨held, agent⟩ := openWithStorage_keeps opening initial
    fun before after key value member => kept before after key value (List.mem_cons_of_mem _ member)
  cases outcome with
  | error error =>
    cases ran
    exact held
  | ok fs =>
    obtain rfl := agent fs rfl
    simp only at ran
    cases persisted : (AgentFs.attach raw).persistOutput body citations opened with
    | error error =>
      rw [persisted] at ran
      cases ran
      exact held
    | ok written =>
      have put : AgentFs.put opened ((AgentFs.attach raw).key CANONICAL_OUTPUT) (.text body) = .ok written := by
        unfold AgentFs.persistOutput at persisted
        simp only [bind, Except.bind] at persisted
        split at persisted
        · cases persisted
        · split at persisted
          · cases persisted
          · exact persisted
      have last : holds written := kept opened written _ _ List.mem_cons_self held put
      rw [persisted] at ran
      simp only at ran
      split at ran
      · cases ran
        exact last
      · split at ran
        · cases ran
          exact last
        · cases ran
          exact last

/-- What the pointer's move and every new row keep, the call keeps, wherever it stops. -/
theorem persistOutputImpl_db {δ : Type} [StructuralDbStore δ] {holds : δ → Prop} {codec : Codec} {clock : Clock}
    {agentId : AgentId} {raw body : String} {citations : List String} {storage after : σ} {before final : δ}
    {result : Except PersistError OutputId}
    (ran : persistOutputImpl codec clock agentId raw body citations storage before = (result, after, final))
    (initial : holds before)
    (indexed : ∀ before after agentId filepath blobSha, holds before →
      StructuralDbStore.setFileVersion before agentId filepath blobSha = .ok after → holds after)
    (cited : ∀ before after row, holds before → StructuralDbStore.addCitation before row = .ok after → holds after) :
    holds final := by
  have rows : ∀ {fs : AgentFs} {outputSha : BlobSha} {storage : σ} {citations : List String} {before after : δ}
      {result : Except PersistError Unit},
      addCitations codec fs agentId outputSha storage citations before = (result, after) → holds before → holds after := by
    intro fs outputSha storage citations before after result ran held
    induction citations generalizing before with
    | nil =>
      cases ran
      exact held
    | cons path citations ih =>
      unfold addCitations at ran
      split at ran
      · cases ran
        exact held
      · split at ran
        · cases ran
          exact held
        · rename_i middle written
          exact ih ran (cited before middle _ held written)
  unfold persistOutputImpl at ran
  split at ran
  · cases ran
    exact initial
  · split at ran
    · cases ran
      exact initial
    · simp only at ran
      split at ran
      · cases ran
        exact initial
      · rename_i moved pointed
        have first := indexed before moved _ _ _ initial pointed
        split at ran
        · rename_i stopped
          cases ran
          exact rows stopped first
        · rename_i ended
          cases ran
          exact rows ended first

end Opening

section Cited

variable {σ τ : Type} [AgentStorage σ] [AgentStorage τ] [LawfulStorage σ] {inner : τ → σ} {fs : AgentFs}
  {store after : τ} {path : String}

private theorem written_apart {key : String} (member : key ∈ CANONICAL_OUTPUT :: openedKeys) :
    (∃ parts, key = joinPath parts) ∧ (startsWithText key "evidence/" = true → key = EVIDENCE_TAIL_SUFFIX) := by
  unfold openedKeys at member
  simp only [List.mem_cons, List.not_mem_nil, or_false] at member
  rcases member with rfl | rfl | rfl | rfl
  · exact ⟨⟨[⟨"outputs", by decide⟩, ⟨"output.md", by decide⟩], by decide⟩, by decide⟩
  · exact ⟨⟨[mandateName], by decide⟩, by decide⟩
  · exact ⟨⟨[evidenceName, tailName], by decide⟩, fun _ => rfl⟩
  · exact ⟨⟨[notesName, tailName], by decide⟩, by decide⟩

theorem citedBytes_put (attached : Attached fs) {key : String} {value : Content} {storage written : σ}
    (member : key ∈ CANONICAL_OUTPUT :: openedKeys) (put : AgentFs.put storage (fs.key key) value = .ok written)
    (path : String) : citedBytes fs written path = citedBytes fs storage path := by
  unfold citedBytes
  split
  · rename_i rel checked
    obtain ⟨cleaned, below, record⟩ := evidenceRelpathChecked_ok checked
    obtain ⟨parts, rfl⟩ := cleanRelpath_ok cleaned
    obtain ⟨⟨others, rfl⟩, sidecar⟩ := written_apart member
    apply (put_spec put).2.apart
    intro same
    rw [keyPath_key attached, keyPath_key attached (joinPath others), keyPath_joinPath, keyPath_joinPath] at same
    rw [List.append_cancel_left same] at below record
    exact record (sidecar below)
  · rfl

theorem readEvidenceBytes_ok (through : Through inner) {bytes : Content} (read : fs.readEvidenceBytes store path = .ok bytes) :
    citedBytes fs (inner store) path = some bytes := by
  unfold AgentFs.readEvidenceBytes at read
  unfold citedBytes
  obtain ⟨rel, checked, read⟩ := bind_ok read
  obtain ⟨found, got, read⟩ := bind_ok read
  rw [checked]
  have same := get_spec (through.get_fs got)
  cases found with
  | none => cases read
  | some content =>
    cases read
    exact same.symm

/-- A record that is there is missed only by a fault of the store. -/
theorem readEvidenceBytes_error (through : Through inner) {bytes : Content} {error : FsError}
    (there : citedBytes fs (inner store) path = some bytes)
    (failed : fs.readEvidenceBytes store path = .error error) : error.isModelFault = false := by
  unfold citedBytes at there
  unfold AgentFs.readEvidenceBytes at failed
  split at there
  · rename_i rel checked
    rw [checked] at failed
    simp only [bind, Except.bind] at failed
    cases got : AgentFs.get store (fs.key rel) with
    | error other =>
      rw [got] at failed
      cases failed
      exact stored_error got
    | ok found =>
      have same := get_spec (through.get_fs got)
      rw [there] at same
      rw [got, same] at failed
      cases failed
  · cases there

theorem citationsExist_ok (through : Through inner) {citations : List String} (exist : fs.citationsExist store citations = .ok ()) :
    ∀ path ∈ citations, (citedBytes fs (inner store) path).isSome = true := by
  induction citations with
  | nil => exact fun _ member => (List.not_mem_nil member).elim
  | cons path citations ih =>
    unfold AgentFs.citationsExist at exist
    obtain ⟨⟨⟩, first, rest⟩ := bind_ok exist
    refine List.forall_mem_cons.mpr ⟨?_, ih rest⟩
    unfold AgentFs.evidenceMustExist at first
    obtain ⟨rel, checked, first⟩ := bind_ok first
    obtain ⟨found, got, first⟩ := bind_ok first
    unfold citedBytes
    rw [checked]
    simp only
    rw [← get_spec (through.get_fs got)]
    cases found with
    | none => cases first
    | some content => rfl

theorem persistOutput_ok (through : Through inner) {body : String} {citations : List String}
    (persisted : fs.persistOutput body citations store = .ok after) :
    (∀ path ∈ citations, (citedBytes fs (inner store) path).isSome = true) ∧
      AgentFs.put (inner store) (fs.key CANONICAL_OUTPUT) (.text body) = .ok (inner after) := by
  unfold AgentFs.persistOutput at persisted
  simp only [bind, Except.bind] at persisted
  split at persisted
  · cases persisted
  · cases exist : fs.citationsExist store citations with
    | error error =>
      rw [exist] at persisted
      cases persisted
    | ok done =>
      rw [exist] at persisted
      exact ⟨citationsExist_ok through exist, through.put_fs persisted⟩

end Cited

section Rows

variable {σ τ : Type} [AgentStorage σ] [AgentStorage τ] [LawfulStorage σ] {inner : τ → σ} {codec : Codec}
  {call : PersistCall} {store : τ}

theorem resolveCited_ok (through : Through inner) {path citedPath : String} {citedAgent : AgentId} {citedSha : BlobSha}
    (resolved : resolveCited codec call.fs call.agentId store path = .ok (citedAgent, citedPath, citedSha)) :
    call.row codec (inner store) path = some
      ⟨call.agentId, CANONICAL_OUTPUT, codec.ofBytes (.text call.body), citedAgent, citedPath, citedSha⟩ := by
  unfold resolveCited at resolved
  split at resolved
  · cases resolved
  · rename_i bytes read
    unfold PersistCall.row
    rw [readEvidenceBytes_ok through read]
    simp only [Option.bind_eq_bind, Option.bind_some, resolved]
    rfl

theorem resolveCited_error (through : Through inner) {path : String} {error : FsError}
    (there : (citedBytes call.fs (inner store) path).isSome = true)
    (failed : resolveCited codec call.fs call.agentId store path = .error (.fs error)) : error.isModelFault = false := by
  obtain ⟨bytes, found⟩ := Option.isSome_iff_exists.mp there
  unfold resolveCited at failed
  split at failed
  · rename_i read
    cases failed
    exact readEvidenceBytes_error through found read
  · unfold resolveRecord at failed
    split at failed
    · cases failed
    · split at failed
      · split at failed
        · cases failed
        · split at failed
          · cases failed
          · split at failed <;> cases failed
      · cases failed

/-- The rows that are written are those of the citations: all of them unless it fails. -/
structure Cited (codec : Codec) (call : PersistCall) (storage : σ) (citations : List String) (before after : StructuralDb) :
    Prop where
  fileIndex : after.fileIndex = before.fileIndex
  kept : ∀ row ∈ before.citations, row ∈ after.citations
  added : ∀ row ∈ after.citations, row ∈ before.citations ∨ ∃ path ∈ citations, call.row codec storage path = some row

theorem addCitations_spec (through : Through inner) {citations : List String} {before after : FaultyDb} {result : Except PersistError Unit}
    (there : ∀ path ∈ citations, (citedBytes call.fs (inner store) path).isSome = true)
    (ran : addCitations codec call.fs call.agentId (codec.ofBytes (.text call.body)) store citations before =
      (result, after)) :
    Cited codec call (inner store) citations before.db after.db ∧
      (result = .ok () → ∀ path ∈ citations, ∃ row ∈ after.db.citations, call.row codec (inner store) path = some row) ∧
      ∀ error, result = .error (.fs error) → error.isModelFault = false := by
  have unchanged : Cited codec call (inner store) citations before.db before.db :=
    ⟨rfl, fun _ member => member, fun _ member => .inl member⟩
  induction citations generalizing before with
  | nil =>
    cases ran
    exact ⟨unchanged, fun _ _ member => (List.not_mem_nil member).elim, nofun⟩
  | cons path citations ih =>
    obtain ⟨first, others⟩ := List.forall_mem_cons.mp there
    unfold addCitations at ran
    split at ran
    · rename_i failed
      cases ran
      refine ⟨unchanged, nofun, ?_⟩
      rintro error ⟨⟩
      exact resolveCited_error through first failed
    · rename_i citedAgent citedPath citedSha resolved
      have row := resolveCited_ok through resolved
      split at ran
      · cases ran
        exact ⟨unchanged, nofun, nofun⟩
      · rename_i middle written
        obtain ⟨-, index, members⟩ := StructuralDb.addCitation_ok (FaultyDb.whileUp_ok written)
        obtain ⟨cited, all, faults⟩ := ih others ran ⟨rfl, fun _ member => member, fun _ member => .inl member⟩
        refine ⟨⟨cited.fileIndex.trans index, ?_, ?_⟩, ?_, faults⟩
        · exact fun other member => cited.kept other ((members other).mpr (.inr member))
        · intro other member
          rcases cited.added other member with earlier | ⟨later, among, same⟩
          · rcases (members other).mp earlier with rfl | before
            · exact .inr ⟨path, List.mem_cons_self, row⟩
            · exact .inl before
          · exact .inr ⟨later, List.mem_cons_of_mem _ among, same⟩
        · intro ended
          refine List.forall_mem_cons.mpr ⟨?_, all ended⟩
          exact ⟨_, cited.kept _ ((members _).mpr (.inl rfl)), row⟩

end Rows

section Converges

variable {σ : Type} [AgentStorage σ] [LawfulStorage σ] {codec : Codec} {call : PersistCall}

def PersistCall.outputKey (call : PersistCall) : String := call.fs.key CANONICAL_OUTPUT

def PersistCall.indexed (call : PersistCall) (db : StructuralDb) : Option BlobSha :=
  db.fileIndex.lookup (call.agentId, CANONICAL_OUTPUT)

/-- The evidence, and every row that is neither there nor cited by the call, are as they were. -/
structure Partway (codec : Codec) (call : PersistCall) (before after : σ × StructuralDb) : Prop where
  evidence : ∀ path, citedBytes call.fs after.1 path = citedBytes call.fs before.1 path
  kept : ∀ row ∈ before.2.citations, row ∈ after.2.citations
  added : ∀ row ∈ after.2.citations, row ∈ before.2.citations ∨ call.Cites codec before.1 row

structure Persisted (codec : Codec) (call : PersistCall) (stores : σ × StructuralDb) : Prop where
  output : viewAt stores.1 call.outputKey = some (.text call.body)
  indexed : call.indexed stores.2 = some (codec.ofBytes (.text call.body))
  cited : ∀ path ∈ call.citations, ∃ row ∈ stores.2.citations, call.row codec stores.1 path = some row

theorem row_congr {first second : σ} {path : String}
    (same : citedBytes call.fs first path = citedBytes call.fs second path) :
    call.row codec first path = call.row codec second path := by
  unfold PersistCall.row
  rw [same]

theorem Partway.refl (stores : σ × StructuralDb) : Partway codec call stores stores :=
  ⟨fun _ => rfl, fun _ member => member, fun _ member => .inl member⟩

theorem Partway.trans {before middle after : σ × StructuralDb} (first : Partway codec call before middle)
    (second : Partway codec call middle after) : Partway codec call before after where
  evidence path := (second.evidence path).trans (first.evidence path)
  kept row member := second.kept row (first.kept row member)
  added row member := by
    rcases second.added row member with earlier | ⟨path, among, same⟩
    · exact first.added row earlier
    · exact .inr ⟨path, among, (row_congr (first.evidence path)).symm.trans same⟩

section Spec

variable {τ : Type} [AgentStorage τ] {inner : τ → σ}

/-- The store as opening may leave it. -/
def Undisturbed (call : PersistCall) (storage current : σ) : Prop :=
  (∀ path, citedBytes call.fs current path = citedBytes call.fs storage path) ∧
    viewAt current call.outputKey = viewAt storage call.outputKey

theorem undisturbed_put {storage before after : σ} {key : String} {value : Content}
    (undisturbed : Undisturbed call storage before) (member : key ∈ openedKeys)
    (written : AgentFs.put before (call.fs.key key) value = .ok after) : Undisturbed call storage after := by
  have attached : Attached call.fs := attached_attach _
  obtain ⟨evidence, output⟩ := undisturbed
  refine ⟨?_, ?_⟩
  · intro path
    rw [citedBytes_put attached (List.mem_cons_of_mem _ member) written, evidence]
  · rw [← output]
    apply (put_spec written).2.apart
    intro same
    obtain ⟨⟨parts, clean⟩, -⟩ := written_apart (List.mem_cons_of_mem _ member)
    obtain ⟨⟨others, canonical⟩, -⟩ := written_apart (show CANONICAL_OUTPUT ∈ _ from List.mem_cons_self)
    unfold PersistCall.outputKey at same
    rw [keyPath_key attached, keyPath_key attached key, clean, canonical, keyPath_joinPath, keyPath_joinPath] at same
    have here : CANONICAL_OUTPUT = key := by rw [canonical, clean, List.append_cancel_left same]
    rw [← here] at member
    revert member
    decide

theorem persistOutputImpl_spec (through : Through inner) {clock : Clock} {store after : τ} {before final : FaultyDb}
    {result : Except PersistError OutputId}
    (ran : persistOutputImpl codec clock call.agentId call.storagePrefix call.body call.citations store before =
      (result, after, final)) :
    Partway codec call (inner store, before.db) (inner after, final.db) ∧
      (∀ id, result = .ok id → id = .new call.body ∧ Persisted codec call (inner after, final.db)) ∧
      ∀ outcome, persistOutcome result = .ok outcome → outcome.outputId = none →
        viewAt (inner after) call.outputKey = viewAt (inner store) call.outputKey ∧ final.db = before.db := by
  have attached : Attached call.fs := attached_attach _
  unfold persistOutputImpl at ran
  generalize opening : AgentFs.openWithStorage call.storagePrefix (.new "" ⟨0⟩ none) clock store = ended at ran
  obtain ⟨outcome, opened⟩ := ended
  obtain ⟨⟨evidence, output⟩, agent⟩ : Undisturbed call (inner store) (inner opened) ∧
      ∀ fs, outcome = .ok fs → fs = call.fs :=
    @openWithStorage_keeps τ _ (fun current => Undisturbed call (inner store) (inner current)) _ _ _ _ _ _ opening
      ⟨fun _ => rfl, rfl⟩
      fun _ _ _ _ member undisturbed written => undisturbed_put undisturbed member (through.put_fs written)
  have untouched : Partway codec call (inner store, before.db) (inner opened, before.db) :=
    ⟨evidence, fun _ member => member, fun _ member => .inl member⟩
  cases outcome with
  | error error =>
    cases ran
    exact ⟨untouched, nofun, fun _ _ _ => ⟨output, rfl⟩⟩
  | ok fs =>
    obtain rfl := agent fs rfl
    simp only at ran
    cases persisted : call.fs.persistOutput call.body call.citations opened with
    | error error =>
      rw [persisted] at ran
      cases ran
      exact ⟨untouched, nofun, fun _ _ _ => ⟨output, rfl⟩⟩
    | ok written =>
      obtain ⟨there, put⟩ := persistOutput_ok through persisted
      have same : ∀ path, citedBytes call.fs (inner written) path = citedBytes call.fs (inner store) path := fun path =>
        (citedBytes_put attached List.mem_cons_self put path).trans (evidence path)
      have body : viewAt (inner written) call.outputKey = some (.text call.body) := (put_spec put).2.at_key
      rw [persisted] at ran
      simp only at ran
      split at ran
      · cases ran
        exact ⟨⟨same, fun _ member => member, fun _ member => .inl member⟩, nofun, nofun⟩
      · rename_i indexed moved
        have pointed := StructuralDb.setFileVersion_ok (FaultyDb.whileUp_ok moved)
        generalize citing : addCitations codec call.fs call.agentId (codec.ofBytes (.text call.body)) written
          call.citations indexed = ended at ran
        obtain ⟨outcome, last⟩ := ended
        obtain ⟨cited, all, faults⟩ := addCitations_spec through (fun path member => by
          rw [same, ← evidence]
          exact there path member) citing
        have partway : Partway codec call (inner store, before.db) (inner written, last.db) := by
          refine ⟨same, ?_, ?_⟩
          · intro row member
            apply cited.kept
            rw [pointed]
            exact member
          · intro row member
            rcases cited.added row member with earlier | ⟨path, among, named⟩
            · rw [pointed] at earlier
              exact .inl earlier
            · exact .inr ⟨path, among, (row_congr (same path)).symm.trans named⟩
        cases outcome with
        | error error =>
          cases ran
          refine ⟨partway, nofun, ?_⟩
          intro corrected mistake
          cases error with
          | fs fault =>
            have infrastructure := faults fault rfl
            change (if fault.isModelFault = true then _ else _) = _ at mistake
            rw [if_neg (by simp [infrastructure])] at mistake
            cases mistake
          | _ => cases mistake
        | ok done =>
          cases ran
          refine ⟨partway, ?_, ?_⟩
          · rintro id ⟨⟩
            refine ⟨rfl, body, ?_, all rfl⟩
            unfold PersistCall.indexed
            rw [cited.fileIndex, pointed]
            exact AList.lookup_insert _
          · intro corrected success missing
            cases success
            cases missing

end Spec

theorem attempt_spec {faults : Faults} {before after : σ × StructuralDb} {result : Except PersistError OutputId}
    (ran : call.attempt codec faults before = (result, after)) :
    Partway codec call before after ∧ (∀ id, result = .ok id → id = .new call.body ∧ Persisted codec call after) ∧
      ∀ outcome, persistOutcome result = .ok outcome → outcome.outputId = none →
        viewAt after.1 call.outputKey = viewAt before.1 call.outputKey ∧ after.2 = before.2 := by
  unfold PersistCall.attempt at ran
  generalize whole : persistOutputImpl codec faults.clock call.agentId call.storagePrefix call.body call.citations
    (⟨before.1, faults.writes, faults.unreadable⟩ : Faulty σ) (⟨before.2, faults.calls⟩ : FaultyDb) = ended at ran
  obtain ⟨outcome, storage, db⟩ := ended
  cases ran
  exact persistOutputImpl_spec through_faulty whole

omit [LawfulStorage σ] in
theorem persisting_step {faults : Faults} {before after : σ × StructuralDb} {results : List (Except PersistError OutputId)}
    (stepped : (persisting codec call).step before faults = some (after, results)) :
    ∃ result, results = [result] ∧ call.attempt codec faults before = (result, after) := by
  change (let (result, after) := call.attempt codec faults before; some (after, [result])) = _ at stepped
  generalize call.attempt codec faults before = ended at stepped
  obtain ⟨result, other⟩ := ended
  cases stepped
  exact ⟨result, rfl, rfl⟩

/-- Once an attempt succeeds, nothing is left of those before it. -/
theorem persisting_spec {start final : σ × StructuralDb} {history : List Faults}
    {earlier : List (Except PersistError OutputId)} {id : OutputId}
    (ran : (persisting codec call).run start history = some (final, earlier ++ [.ok id])) :
    id = .new call.body ∧ Persisted codec call final ∧
      ∀ row, row ∈ final.2.citations ↔ row ∈ start.2.citations ∨ call.Cites codec start.1 row := by
  have partway : Partway codec call start final := by
    refine (persisting codec call).run_invariant (Partway codec call start) (.refl start) ?_ ran
    intro before faults after results held stepped
    obtain ⟨result, -, attempted⟩ := persisting_step stepped
    exact held.trans (attempt_spec attempted).1
  obtain rfl | ⟨before, last, rfl⟩ := history.eq_nil_or_concat'
  · simp at ran
  · obtain ⟨middle, first, rest, -, stepped, outputs⟩ := (persisting codec call).run_snoc.mp ran
    obtain ⟨result, rfl, attempted⟩ := persisting_step stepped
    obtain ⟨-, same⟩ := List.append_inj' outputs rfl
    cases same
    obtain ⟨named, persisted⟩ := (attempt_spec attempted).2.1 id rfl
    refine ⟨named, persisted, ?_⟩
    intro row
    constructor
    · exact partway.added row
    · rintro (earlier | ⟨path, among, same⟩)
      · exact partway.kept row earlier
      · obtain ⟨other, member, written⟩ := persisted.cited path among
        rw [row_congr (partway.evidence path), same] at written
        cases written
        exact member

/-- However often the call fails before it succeeds, the output, its place in the index and
the rows are those of one success; and a mistake of the model leaves all of them alone. -/
theorem persist_output_converges (codec : Codec) (call : PersistCall) (start : σ × StructuralDb) :
    (∀ faults once id history final earlier id',
      (persisting codec call).run start [faults] = some (once, [.ok id]) →
      (persisting codec call).run start history = some (final, earlier ++ [.ok id']) →
        id' = id ∧ viewAt final.1 call.outputKey = viewAt once.1 call.outputKey ∧
          call.indexed final.2 = call.indexed once.2 ∧
          (∀ row, row ∈ final.2.citations ↔ row ∈ once.2.citations) ∧
          ∃ stored, viewAt final.1 call.outputKey = some stored ∧ call.indexed final.2 = some (codec.ofBytes stored)) ∧
    ∀ (stores : σ × StructuralDb) faults after result (outcome : PersistOutputOutput),
      (persisting codec call).step stores faults = some (after, [result]) →
      persistOutcome result = .ok outcome → outcome.outputId = none →
        viewAt after.1 call.outputKey = viewAt stores.1 call.outputKey ∧ after.2 = stores.2 := by
  constructor
  · intro faults once id history final earlier id' single ran
    obtain ⟨rfl, whole, rows⟩ : id = .new call.body ∧ Persisted codec call once ∧
        ∀ row, row ∈ once.2.citations ↔ row ∈ start.2.citations ∨ call.Cites codec start.1 row :=
      @persisting_spec σ _ _ codec call start once [faults] [] id single
    obtain ⟨rfl, persisted, members⟩ := persisting_spec ran
    refine ⟨rfl, persisted.output.trans whole.output.symm, persisted.indexed.trans whole.indexed.symm, ?_, ?_⟩
    · exact fun row => (members row).trans (rows row).symm
    · exact ⟨_, persisted.output, persisted.indexed⟩
  · intro stores faults after result outcome stepped corrected missing
    obtain ⟨other, same, attempted⟩ := persisting_step stepped
    cases same
    exact (attempt_spec attempted).2.2 outcome corrected missing

end Converges

/-- A codec that knows the addresses of these texts and the ids of these agents. -/
def listedCodec (texts : List (String × String)) (ids : List AgentId) : Codec where
  ofBytes
    | .text body => ⟨((texts.find? (·.1 = body)).map (·.2)).getD ""⟩
    | _ => ⟨""⟩
  fromSlice
    | .evidence record => some record
    | _ => none
  fromUtf8
    | .text body => some body
    | _ => none
  fromValue value := ids.find? (·.toJson = value)
  rfc3339 _ := "1970-01-01T00:00:00Z"

private def findings : Codec := listedCodec [("Findings.", "a7e910a9438b7e01520920689ef3137a9eae68fd")] [⟨⟨1⟩⟩, ⟨⟨2⟩⟩]

private def folded : EvidenceRecord :=
  ⟨⟨"5e"⟩, "reconcile", .object [("child_agent_id", .string "00000000-0000-0000-0000-000000000002"),
    ("child_output_blob_sha", .string "b6fc4c620b67d95f953a5c1c1230aaab5db5a1b0")], .null, ⟨0⟩⟩

private def filing : PersistCall := ⟨⟨⟨1⟩⟩, "a", "Findings.", ["evidence/child-5e.json"]⟩

private def filed : MemoryStorage × StructuralDb :=
  (⟨(∅ : AList fun _ : String => Content).insert "a/evidence/child-5e.json" (.evidence folded)⟩,
    ⟨[⟨⟨⟨0⟩⟩, "g", .null⟩], [⟨⟨⟨1⟩⟩, ⟨⟨0⟩⟩, "parent"⟩, ⟨⟨⟨2⟩⟩, ⟨⟨0⟩⟩, "child"⟩], [], [], ∅, []⟩)

private def whole : Faults := ⟨fun _ => ⟨0⟩, 9, fun _ _ => false, 9⟩

private def halfway : Faults := ⟨fun _ => ⟨0⟩, 9, fun _ _ => false, 1⟩

theorem persist_output_converges_after_stop : ∃ stopped final once : MemoryStorage × StructuralDb,
    (persisting findings filing).run filed [halfway] = some (stopped, [.error (.db .unavailable)]) ∧
    (persisting findings filing).run filed [whole] = some (once, [.ok (.new "Findings.")]) ∧
    (persisting findings filing).run stopped [whole] = some (final, [.ok (.new "Findings.")]) ∧
    stopped.2.citations = [] ∧ ∀ row, row ∈ final.2.citations ↔ row ∈ once.2.citations := by
  have run : ∀ (faults : Faults) (stores : MemoryStorage × StructuralDb) (result : Except PersistError OutputId),
      (filing.attempt findings faults stores).1 = result →
      (persisting findings filing).run stores [faults] =
        some ((filing.attempt findings faults stores).2, [result]) := by
    rintro faults stores result rfl
    rfl
  have stopped := run halfway filed (.error (.db .unavailable)) (by rfl)
  have once := run whole filed (.ok (.new "Findings.")) (by rfl)
  have later := run whole (filing.attempt findings halfway filed).2 (.ok (.new "Findings.")) (by rfl)
  refine ⟨_, _, _, stopped, once, later, by rfl, ?_⟩
  have both := (persisting findings filing).run_append.mpr ⟨_, _, _, stopped, later, rfl⟩
  exact ((persist_output_converges findings filing filed).1 _ _ _ _ _ _ _ once both).2.2.2.1

end Coral.Proofs

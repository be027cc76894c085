import Coral.Library.Machine
import Coral.Proofs.AgentPrefixes

/-! Stores that do not fail while they last. On such a store an activity comes to its end, and
what it leaves behind can be told from what was there. -/

namespace Coral.Proofs
open Coral.Library Coral.Temporal LawfulStorage

/-- Where a store does not fail: at some keys, and in listings from some prefixes, for so many
more writes. -/
structure Footing (σ : Type) [AgentStorage σ] where
  keeps : String → Prop
  lists : String → Prop
  lasts : σ → Nat → Prop
  fewer : ∀ {storage : σ} {more fewer : Nat}, fewer ≤ more → lasts storage more → lasts storage fewer
  get : ∀ {storage : σ} {key : String}, lasts storage 0 → keeps key → ∃ found, AgentStorage.get storage key = .ok found
  list : ∀ {storage : σ} {start : String}, lasts storage 0 → lists start → ∀ after limit,
    ∃ page, AgentStorage.list storage start after limit = .ok page
  put : ∀ {storage : σ} {writes : Nat} {key : String}, lasts storage (writes + 1) → keeps key → ∀ value,
    ∃ after, AgentStorage.put storage key value = .ok after ∧ lasts after writes
  putIfAbsent : ∀ {storage : σ} {writes : Nat} {key : String}, lasts storage (writes + 1) → keeps key → ∀ value,
    ∃ outcome after, AgentStorage.putIfAbsent storage key value = .ok (outcome, after) ∧ lasts after writes

/-- No call to memory fails. -/
def MemoryStorage.footing : Footing MemoryStorage where
  keeps _ := True
  lists _ := True
  lasts _ _ := True
  fewer _ _ := trivial
  get _ _ := ⟨_, rfl⟩
  list _ _ _ _ := ⟨_, rfl⟩
  put _ _ _ := ⟨_, rfl, trivial⟩
  putIfAbsent := by
    intro storage writes key _ _ value
    by_cases present : (storage.inner.lookup key).isSome = true
    · exact ⟨.existed, storage, if_pos present, trivial⟩
    · exact ⟨.created, _, if_neg present, trivial⟩

/-- A process answers where its store does, as long as it goes on. -/
def Footing.stopping {σ : Type} [AgentStorage σ] (footing : Footing σ) : Footing (Stopping σ) where
  keeps := footing.keeps
  lists := footing.lists
  lasts store writes := writes ≤ store.writes ∧ footing.lasts store.storage writes
  fewer below alive := ⟨le_trans below alive.1, footing.fewer below alive.2⟩
  get alive kept := footing.get alive.2 kept
  list alive listed := footing.list alive.2 listed
  put := by
    intro store writes key alive kept value
    obtain ⟨room, alive⟩ := alive
    obtain ⟨after, written, rest⟩ := footing.put alive kept value
    refine ⟨⟨after, store.writes - 1, key :: store.journal⟩, ?_, ?_, rest⟩
    · change store.put key value = _
      unfold Stopping.put
      rw [if_neg (by omega), written]
      rfl
    · change writes ≤ store.writes - 1
      omega
  putIfAbsent := by
    intro store writes key alive kept value
    obtain ⟨room, alive⟩ := alive
    obtain ⟨outcome, after, written, rest⟩ := footing.putIfAbsent alive kept value
    refine ⟨outcome, ⟨after, store.writes - 1, if outcome = .created then key :: store.journal else store.journal⟩,
      ?_, ?_, rest⟩
    · change store.putIfAbsent key value = _
      unfold Stopping.putIfAbsent
      rw [if_neg (by omega), written]
      rfl
    · change writes ≤ store.writes - 1
      omega

/-- The keys and the directories that an agent's own calls go to. -/
structure Footing.Houses {σ : Type} [AgentStorage σ] (footing : Footing σ) (fs : AgentFs) : Prop where
  written : ∀ key ∈ CANONICAL_OUTPUT :: openedKeys, footing.keeps (fs.key key)
  indexed : ∀ dir ∈ ["evidence/", "notes/"], footing.lists (fs.key dir)
  recorded : ∀ observed : Observed, footing.keeps (fs.key observed.relpath)

/-- The records that are cited are at such keys. -/
def Footing.Finds {σ : Type} [AgentStorage σ] (footing : Footing σ) (fs : AgentFs) (citations : List String) : Prop :=
  ∀ path ∈ citations, ∀ rel, AgentFs.evidenceRelpathChecked path = .ok rel → footing.keeps (fs.key rel)

/-- What is not read can be created. -/
def Footing.Frees {σ : Type} [AgentStorage σ] [LawfulStorage σ] (footing : Footing σ) : Prop :=
  ∀ storage writes key, footing.lasts storage writes → footing.keeps key → viewAt storage key = none → vacant storage key

theorem Footing.Houses.stopping {σ : Type} [AgentStorage σ] {footing : Footing σ} {fs : AgentFs}
    (housed : footing.Houses fs) : footing.stopping.Houses fs := ⟨housed.written, housed.indexed, housed.recorded⟩

theorem MemoryStorage.houses (fs : AgentFs) : MemoryStorage.footing.Houses fs :=
  ⟨fun _ _ => trivial, fun _ _ => trivial, fun _ => trivial⟩

theorem MemoryStorage.finds (fs : AgentFs) (citations : List String) : MemoryStorage.footing.Finds fs citations :=
  fun _ _ _ _ => trivial

/-- The database lasts for so many more calls, and refuses only rows of agents it does not know. -/
class LastingDb (δ : Type) [StructuralDbStore δ] where
  lasts : δ → Nat → Prop
  knows : δ → AgentId → Prop
  fewer : ∀ {db : δ} {more fewer : Nat}, fewer ≤ more → lasts db more → lasts db fewer
  setFileVersion : ∀ {db : δ} {calls : Nat} {agentId : AgentId}, lasts db (calls + 1) → knows db agentId →
    ∀ filepath blobSha, ∃ after, StructuralDbStore.setFileVersion db agentId filepath blobSha = .ok after ∧
      lasts after calls ∧ ∀ other, knows db other → knows after other
  addCitation : ∀ {db : δ} {calls : Nat} {row : Citation}, lasts db (calls + 1) → knows db row.citingAgentId →
    knows db row.citedAgentId → ∃ after, StructuralDbStore.addCitation db row = .ok after ∧ lasts after calls ∧
      ∀ other, knows db other → knows after other

theorem setFileVersion_known {db : StructuralDb} {agentId : AgentId} (known : agentId ∈ db.agents) (filepath : String)
    (blobSha : BlobSha) : ∃ after, db.setFileVersion agentId filepath blobSha = .ok after ∧ after.agents = db.agents := by
  unfold StructuralDb.setFileVersion
  rw [if_pos known]
  exact ⟨_, rfl, rfl⟩

theorem addCitation_known {db : StructuralDb} {row : Citation} (citing : row.citingAgentId ∈ db.agents)
    (cited : row.citedAgentId ∈ db.agents) : ∃ after, db.addCitation row = .ok after ∧ after.agents = db.agents := by
  unfold StructuralDb.addCitation
  rw [if_neg (not_not.mpr citing), if_neg (not_not.mpr cited)]
  split
  · exact ⟨db, rfl, rfl⟩
  · exact ⟨_, rfl, rfl⟩

instance : LastingDb StructuralDb where
  lasts _ _ := True
  knows db agentId := agentId ∈ db.agents
  fewer _ _ := trivial
  setFileVersion _ known filepath blobSha := by
    obtain ⟨after, indexed, same⟩ := setFileVersion_known known filepath blobSha
    exact ⟨after, indexed, trivial, fun other member => same ▸ member⟩
  addCitation _ citing cited := by
    obtain ⟨after, written, same⟩ := addCitation_known citing cited
    exact ⟨after, written, trivial, fun other member => same ▸ member⟩

theorem FaultyDb.whileUp_up {store : FaultyDb} {calls : Nat} (up : calls + 1 ≤ store.calls) (after : StructuralDb) :
    ∃ next : FaultyDb, store.whileUp (.ok after) = .ok next ∧ next.db = after ∧ calls ≤ next.calls := by
  refine ⟨⟨after, store.calls - 1⟩, ?_, rfl, ?_⟩
  · unfold FaultyDb.whileUp
    rw [if_neg (by omega)]
    rfl
  · change calls ≤ store.calls - 1
    omega

instance : LastingDb FaultyDb where
  lasts db calls := calls ≤ db.calls
  knows db agentId := agentId ∈ db.db.agents
  fewer below up := le_trans below up
  setFileVersion := by
    intro db calls agentId up known filepath blobSha
    obtain ⟨after, indexed, same⟩ := setFileVersion_known known filepath blobSha
    obtain ⟨next, ended, rfl, left⟩ := FaultyDb.whileUp_up up after
    refine ⟨next, ?_, left, fun other member => same ▸ member⟩
    change db.whileUp (db.db.setFileVersion agentId filepath blobSha) = _
    rw [indexed, ended]
  addCitation := by
    intro db calls row up citing cited
    obtain ⟨after, written, same⟩ := addCitation_known citing cited
    obtain ⟨next, ended, rfl, left⟩ := FaultyDb.whileUp_up up after
    refine ⟨next, ?_, left, fun other member => same ▸ member⟩
    change db.whileUp (db.db.addCitation row) = _
    rw [written, ended]

section Calls

variable {σ : Type} [AgentStorage σ] [LawfulStorage σ] {footing : Footing σ} {storage : σ} {writes : Nat} {key : String}
  {fs : AgentFs}

namespace Footing

theorem get_view (alive : footing.lasts storage writes) (kept : footing.keeps key) :
    AgentFs.get storage key = .ok (viewAt storage key) := by
  obtain ⟨found, got⟩ := footing.get (footing.fewer (Nat.zero_le _) alive) kept
  have read : AgentFs.get storage key = .ok found := by
    unfold AgentFs.get
    rw [got]
    rfl
  rw [read, get_spec read]

omit [LawfulStorage σ] in
theorem puts (alive : footing.lasts storage (writes + 1)) (kept : footing.keeps key) (value : Content) :
    ∃ after, AgentFs.put storage key value = .ok after ∧ footing.lasts after writes := by
  obtain ⟨after, written, left⟩ := footing.put alive kept value
  refine ⟨after, ?_, left⟩
  unfold AgentFs.put
  rw [written]
  rfl

theorem reconcileTail {suffix indexed : String} (isRecord : String → Bool) (now : DateTime)
    (alive : footing.lasts storage (writes + 1)) (kept : footing.keeps (fs.key suffix))
    (listed : footing.lists (fs.key indexed)) :
    ∃ after, fs.reconcileTail suffix indexed isRecord now storage = .ok after ∧ footing.lasts after writes := by
  have rest : footing.lasts storage writes := footing.fewer (Nat.le_succ _) alive
  obtain ⟨page, shown⟩ := footing.list (footing.fewer (Nat.zero_le _) rest) listed none usizeMax
  unfold AgentFs.reconcileTail AgentFs.listAll
  rw [shown]
  simp only [AgentFs.stored, bind, Except.bind, pure, Except.pure]
  split
  · exact ⟨storage, rfl, rest⟩
  · rw [get_view rest kept]
    simp only
    split
    · exact ⟨storage, rfl, rest⟩
    · exact puts alive kept _

theorem opens {raw : String} (mandate : Mandate) (clock : Clock) (housed : footing.Houses (.attach raw))
    (alive : footing.lasts storage (writes + 3)) :
    ∃ opened, AgentFs.openWithStorage raw mandate clock storage = (.ok (.attach raw), opened) ∧
      footing.lasts opened writes := by
  have kept : ∀ key ∈ openedKeys, footing.keeps ((AgentFs.attach raw).key key) :=
    fun key member => housed.written key (List.mem_cons_of_mem _ member)
  have mandated : ∃ first, AgentFs.settle storage (if (viewAt storage ((AgentFs.attach raw).key "mandate.md")).isNone then
      AgentFs.put storage ((AgentFs.attach raw).key "mandate.md") (.text mandate.text) else .ok storage) = (.ok (), first) ∧
        footing.lasts first (writes + 2) := by
    split
    · obtain ⟨first, put, left⟩ := puts alive (kept "mandate.md" (by simp [openedKeys])) (.text mandate.text)
      rw [put]
      exact ⟨first, rfl, left⟩
    · exact ⟨storage, rfl, footing.fewer (Nat.le_succ _) alive⟩
  obtain ⟨first, settled, two⟩ := mandated
  obtain ⟨second, evidence, one⟩ := reconcileTail isJsonRecord (clock 0) two
    (kept EVIDENCE_TAIL_SUFFIX (by simp [openedKeys])) (housed.indexed "evidence/" (by simp))
  obtain ⟨opened, notes, left⟩ := reconcileTail isNoteRecord (clock 1) one
    (kept NOTES_TAIL_SUFFIX (by simp [openedKeys])) (housed.indexed "notes/" (by simp))
  refine ⟨opened, ?_, left⟩
  unfold AgentFs.openWithStorage
  simp only [get_view alive (kept "mandate.md" (by simp [openedKeys])), settled]
  rw [evidence]
  simp only [AgentFs.settle]
  rw [notes]

theorem appendToTail {suffix : String} (filename : String) (now : DateTime) (alive : footing.lasts storage (writes + 1))
    (kept : footing.keeps (fs.key suffix)) :
    ∃ after, fs.appendToTail suffix filename now storage = .ok after ∧ footing.lasts after writes := by
  unfold AgentFs.appendToTail
  rw [get_view alive kept]
  exact puts alive kept _

/-- A record that is new is in place afterwards. -/
theorem records {graphId : GraphId} {agentId : AgentId} (tool slugSeed : String) (args result : Json)
    (now clock : DateTime) (housed : footing.Houses (.openForAgent graphId agentId))
    (alive : footing.lasts storage (writes + 2))
    (free : vacant storage ((AgentFs.openForAgent graphId agentId).key
      (evidenceRelpath slugSeed (EvidenceRecord.new tool args result now).id))) :
    ∃ after, (AgentFs.openForAgent graphId agentId).recordEvidence clock (.new tool args result now) slugSeed storage =
        (.ok (evidenceRelpath slugSeed (EvidenceRecord.new tool args result now).id), after) ∧
      footing.lasts after writes ∧ viewAt after ((AgentFs.openForAgent graphId agentId).key
        (evidenceRelpath slugSeed (EvidenceRecord.new tool args result now).id)) =
          some (.evidence (.new tool args result now)) := by
  obtain ⟨name, named, unlisted⟩ := relpath_joinPath tool slugSeed args result now
  have kept : footing.keeps ((AgentFs.openForAgent graphId agentId).key
      (evidenceRelpath slugSeed (EvidenceRecord.new tool args result now).id)) :=
    housed.recorded ⟨tool, args, result, now, slugSeed, clock⟩
  simp only [AgentFs.recordEvidence]
  generalize EvidenceRecord.new tool args result now = record at free named kept ⊢
  generalize evidenceRelpath slugSeed record.id = relpath at free named kept ⊢
  obtain ⟨outcome, middle, wrote, one⟩ := footing.putIfAbsent alive kept (.evidence record)
  have created : outcome = .created := by
    cases outcome with
    | created => rfl
    | existed => exact ((putIfAbsent_vacant storage middle _ _ _ wrote).1 rfl free).elim
  subst created
  obtain ⟨after, followed, left⟩ := @appendToTail _ _ _ footing _ _ (.openForAgent graphId agentId) EVIDENCE_TAIL_SUFFIX
    ((stripStart relpath "evidence/").getD relpath) clock one (housed.written _ (by simp [openedKeys]))
  refine ⟨after, ?_, left, ?_⟩
  · rw [wrote]
    simp only [AgentFs.stored]
    rw [followed]
  · obtain ⟨value, put⟩ := appendToTail_put followed
    have sets : Sets middle after ((AgentFs.openForAgent graphId agentId).key EVIDENCE_TAIL_SUFFIX) (some value) :=
      (put_ok middle after _ _ put).2
    rw [sets.apart]
    · exact Sets.at_key (putIfAbsent_created storage middle _ _ wrote).2.2
    · intro same
      rw [named] at same
      obtain ⟨-, there⟩ := keyPath_agent_inj same
      rw [keyPath_joinPath, show keyPath EVIDENCE_TAIL_SUFFIX = [evidenceName, tailName] by decide] at there
      exact unlisted (by simpa using there)

end Footing

end Calls

section Persist

variable {σ δ : Type} [AgentStorage σ] [LawfulStorage σ] [StructuralDbStore δ] [LastingDb δ] {footing : Footing σ}
  {codec : Codec} {storage : σ} {db : δ} {writes calls : Nat}

/-- The record can be pinned: its cited end is read off it, and is an agent of the database. -/
def Pins (codec : Codec) (known : AgentId → Prop) (fs : AgentFs) (agentId : AgentId) (storage : σ) (path : String) : Prop :=
  ∃ bytes citedAgent citedPath citedSha, citedBytes fs storage path = some bytes ∧
    resolveRecord codec agentId path bytes = .ok (citedAgent, citedPath, citedSha) ∧ known citedAgent

namespace Footing

omit [StructuralDbStore δ] [LastingDb δ] in
theorem citationsExist {fs : AgentFs} {citations : List String} (alive : footing.lasts storage writes)
    (finds : footing.Finds fs citations)
    (there : ∀ path ∈ citations, (citedBytes fs storage path).isSome = true) :
    fs.citationsExist storage citations = .ok () := by
  induction citations with
  | nil => rfl
  | cons path citations ih =>
    obtain ⟨first, others⟩ := List.forall_mem_cons.mp there
    obtain ⟨kept, later⟩ := List.forall_mem_cons.mp finds
    unfold AgentFs.citationsExist AgentFs.evidenceMustExist
    unfold citedBytes at first
    split at first
    · rename_i rel checked
      obtain ⟨bytes, found⟩ := Option.isSome_iff_exists.mp first
      rw [checked]
      simp only [bind, Except.bind]
      rw [get_view alive (kept rel checked), found]
      exact ih later others
    · cases first

theorem resolveCited {fs : AgentFs} {agentId : AgentId} {path : String} {bytes : Content}
    (alive : footing.lasts storage writes)
    (kept : ∀ rel, AgentFs.evidenceRelpathChecked path = .ok rel → footing.keeps (fs.key rel))
    (found : citedBytes fs storage path = some bytes) :
    Temporal.resolveCited codec fs agentId storage path = resolveRecord codec agentId path bytes := by
  unfold citedBytes at found
  unfold Temporal.resolveCited AgentFs.readEvidenceBytes
  split at found
  · rename_i rel checked
    rw [checked]
    simp only [bind, Except.bind]
    rw [get_view alive (kept rel checked), found]
    rfl
  · cases found

theorem addCitations {fs : AgentFs} {agentId : AgentId} (outputSha : BlobSha) {citations : List String}
    (alive : footing.lasts storage writes) (finds : footing.Finds fs citations) (up : LastingDb.lasts db citations.length)
    (known : LastingDb.knows db agentId)
    (pinned : ∀ path ∈ citations, Pins codec (LastingDb.knows db) fs agentId storage path) :
    ∃ after, Temporal.addCitations codec fs agentId outputSha storage citations db = (.ok (), after) := by
  induction citations generalizing db with
  | nil => exact ⟨db, rfl⟩
  | cons path citations ih =>
    obtain ⟨⟨bytes, citedAgent, citedPath, citedSha, found, resolved, cited⟩, others⟩ := List.forall_mem_cons.mp pinned
    obtain ⟨kept, later⟩ := List.forall_mem_cons.mp finds
    obtain ⟨middle, written, left, knows⟩ := @LastingDb.addCitation δ _ _ db citations.length
      ⟨agentId, CANONICAL_OUTPUT, outputSha, citedAgent, citedPath, citedSha⟩ up known cited
    obtain ⟨after, ended⟩ := ih later left (knows agentId known) fun other member => by
      obtain ⟨bytes, citedAgent, citedPath, citedSha, found, resolved, cited⟩ := others other member
      exact ⟨bytes, citedAgent, citedPath, citedSha, found, resolved, knows citedAgent cited⟩
    refine ⟨after, ?_⟩
    unfold Temporal.addCitations
    rw [resolveCited alive kept found, resolved]
    simp only
    rw [written]
    exact ended

/-- An output whose citations can all be pinned is persisted. -/
theorem persists (clock : Clock) {agentId : AgentId} {raw : String} (body : String) {citations : List String}
    (cites : citations ≠ []) (housed : footing.Houses (.attach raw)) (finds : footing.Finds (.attach raw) citations)
    (alive : footing.lasts storage (writes + 4))
    (up : LastingDb.lasts db (citations.length + 1)) (known : LastingDb.knows db agentId)
    (pinned : ∀ path ∈ citations, Pins codec (LastingDb.knows db) (.attach raw) agentId storage path) :
    ∃ after final, persistOutputImpl codec clock agentId raw body citations storage db = (.ok (.new body), after, final) ∧
      footing.lasts after writes := by
  obtain ⟨opened, opening, room⟩ := opens (.new "" ⟨0⟩ none) clock housed
    (show footing.lasts storage (writes + 1 + 3) from alive)
  have same : ∀ path, citedBytes (.attach raw) opened path = citedBytes (.attach raw) storage path :=
    (@openWithStorage_keeps σ _
      (fun current => ∀ path, citedBytes (.attach raw) current path = citedBytes (.attach raw) storage path) _ _ _ _ _ _
      opening (fun _ => rfl) fun before after key value member held written path =>
        (citedBytes_put (attached_attach raw) (List.mem_cons_of_mem _ member) written path).trans (held path)).1
  obtain ⟨written, put, left⟩ := puts room (housed.written CANONICAL_OUTPUT List.mem_cons_self) (.text body)
  have after : ∀ path, citedBytes (.attach raw) written path = citedBytes (.attach raw) storage path := fun path =>
    (citedBytes_put (attached_attach raw) List.mem_cons_self put path).trans (same path)
  obtain ⟨indexed, moved, calls, knows⟩ := LastingDb.setFileVersion up known CANONICAL_OUTPUT (codec.ofBytes (.text body))
  obtain ⟨final, cited⟩ := addCitations (codec.ofBytes (.text body)) left finds calls (knows agentId known)
    fun path member => by
      obtain ⟨bytes, citedAgent, citedPath, citedSha, found, resolved, cited⟩ := pinned path member
      exact ⟨bytes, citedAgent, citedPath, citedSha, (after path).trans found, resolved, knows citedAgent cited⟩
  refine ⟨written, final, ?_, left⟩
  have exist : (AgentFs.attach raw).citationsExist opened citations = .ok () := by
    apply citationsExist room finds
    intro path member
    obtain ⟨bytes, -, -, -, found, -⟩ := pinned path member
    rw [same, found]
    rfl
  have nonempty : citations.isEmpty = false := by
    cases citations with
    | nil => exact (cites rfl).elim
    | cons path citations => rfl
  have persisted : (AgentFs.attach raw).persistOutput body citations opened = .ok written := by
    unfold AgentFs.persistOutput
    simp only [nonempty, Bool.false_eq_true, if_false, bind, Except.bind]
    rw [exist]
    exact put
  unfold persistOutputImpl
  rw [opening]
  simp only
  rw [persisted]
  simp only
  rw [moved]
  simp only
  rw [cited]

end Footing

end Persist

end Coral.Proofs

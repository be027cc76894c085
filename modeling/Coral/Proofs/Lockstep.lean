import Coral.Proofs.GraphActivities
import Coral.Proofs.NotesRecency

/-! Two stores that answer alike at the keys that an agent goes to. No code of an agent tells
them apart: each call has the same result, and leaves stores that are still alike. -/

namespace Coral.Proofs
open Coral.Library Coral.Temporal LawfulStorage

/-- The same error, or values that are related. -/
def Matched {ε α β : Type} (rel : α → β → Prop) : Except ε α → Except ε β → Prop
  | .ok first, .ok second => rel first second
  | .error first, .error second => first = second
  | _, _ => False

/-- The same result, and stores that are related. -/
def Ended {α σ τ : Type} (rel : σ → τ → Prop) (first : α × σ) (second : α × τ) : Prop :=
  first.1 = second.1 ∧ rel first.2 second.2

theorem Matched.cases {ε α β : Type} {rel : α → β → Prop} {first : Except ε α} {second : Except ε β}
    (matched : Matched rel first second) :
    (∃ error, first = .error error ∧ second = .error error) ∨
      ∃ one two, first = .ok one ∧ second = .ok two ∧ rel one two := by
  cases first with
  | error error =>
    cases second with
    | error other =>
      obtain rfl : error = other := matched
      exact .inl ⟨error, rfl, rfl⟩
    | ok two => exact (matched : False).elim
  | ok one =>
    cases second with
    | error error => exact (matched : False).elim
    | ok two => exact .inr ⟨one, two, rfl, rfl, matched⟩

theorem Ended.cases {α σ τ : Type} {rel : σ → τ → Prop} {first : α × σ} {second : α × τ} (ended : Ended rel first second) :
    ∃ result one two, first = (result, one) ∧ second = (result, two) ∧ rel one two := by
  obtain ⟨result, one⟩ := first
  obtain ⟨other, two⟩ := second
  obtain ⟨rfl, alike⟩ : result = other ∧ rel one two := ended
  exact ⟨result, one, two, rfl, rfl, alike⟩

/-- The calls of a store, at the keys that are written, those that are read, and the starts of listings. -/
structure Lockstep {σ τ : Type} [AgentStorage σ] [AgentStorage τ] (rel : σ → τ → Prop)
    (keys reads starts : String → Prop) : Prop where
  reads_keys : ∀ {key}, keys key → reads key
  get : ∀ {first second key}, rel first second → reads key → AgentStorage.get first key = AgentStorage.get second key
  list : ∀ {first second start after limit}, rel first second → starts start →
    AgentStorage.list first start after limit = AgentStorage.list second start after limit
  put : ∀ {first second key value}, rel first second → keys key →
    Matched rel (AgentStorage.put first key value) (AgentStorage.put second key value)
  putIfAbsent : ∀ {first second key value}, rel first second → keys key →
    Matched (Ended rel) (AgentStorage.putIfAbsent first key value) (AgentStorage.putIfAbsent second key value)
  delete : ∀ {first second key}, rel first second → keys key →
    Matched rel (AgentStorage.delete first key) (AgentStorage.delete second key)
  /-- What is listed is read. -/
  listed : ∀ {first second start after limit page}, rel first second → starts start →
    AgentStorage.list first start after limit = .ok page → ∀ key ∈ page.keys, reads key

section Stopping

variable {σ τ : Type} [AgentStorage σ] [AgentStorage τ] {rel : σ → τ → Prop} {keys reads starts : String → Prop}

/-- The processes have as many writes left. -/
def Alongside (rel : σ → τ → Prop) (first : Stopping σ) (second : Stopping τ) : Prop :=
  rel first.storage second.storage ∧ first.writes = second.writes

/-- Processes that stop at the same write go on alike. -/
theorem Lockstep.stopping (lockstep : Lockstep rel keys reads starts) : Lockstep (Alongside rel) keys reads starts where
  reads_keys := lockstep.reads_keys
  get alike used := lockstep.get alike.1 used
  list alike used := lockstep.list alike.1 used
  listed alike used got := lockstep.listed alike.1 used got
  put {first second key value} alike used := by
    obtain ⟨inner, writes⟩ := alike
    change Matched _ (first.put key value) (second.put key value)
    unfold Stopping.put
    rw [writes]
    split
    · rfl
    · rcases (@Lockstep.put _ _ _ _ _ _ _ _ lockstep _ _ key value inner used).cases with ⟨error, one, two⟩ |
        ⟨_, _, one, two, next⟩
      · rw [one, two]
        rfl
      · rw [one, two]
        exact ⟨next, rfl⟩
  putIfAbsent {first second key value} alike used := by
    obtain ⟨inner, writes⟩ := alike
    change Matched _ (first.putIfAbsent key value) (second.putIfAbsent key value)
    unfold Stopping.putIfAbsent
    rw [writes]
    split
    · rfl
    · rcases (@Lockstep.putIfAbsent _ _ _ _ _ _ _ _ lockstep _ _ key value inner used).cases with ⟨error, one, two⟩ |
        ⟨_, _, one, two, next⟩
      · rw [one, two]
        rfl
      · rw [one, two]
        exact ⟨next.1, next.2, rfl⟩
  delete {first second key} alike used := by
    obtain ⟨inner, writes⟩ := alike
    change Matched _ (first.delete key) (second.delete key)
    unfold Stopping.delete
    rw [writes]
    split
    · rfl
    · rcases (@Lockstep.delete _ _ _ _ _ _ _ _ lockstep _ _ key inner used).cases with ⟨error, one, two⟩ |
        ⟨_, _, one, two, next⟩
      · rw [one, two]
        rfl
      · rw [one, two]
        exact ⟨next, rfl⟩

end Stopping

def runtimeFiles : List String := CANONICAL_OUTPUT :: "retirement.json" :: openedKeys

def runtimeDirs : List String := ["evidence/", "notes/", "outputs/"]

/-- The keys of an agent's files that the runtime writes by name. -/
structure Serves (keys starts : String → Prop) (fs : AgentFs) : Prop where
  own : ∀ rest ∈ runtimeFiles, keys (fs.key rest)
  recorded : ∀ observed : Observed, keys (fs.key observed.relpath)
  conflicts : ∀ alternatives resolution, keys (fs.conflictKey (.new alternatives resolution))
  decisions : ∀ tick step : Nat, keys (fs.key ("decisions/" ++ toString tick ++ "-" ++ toString step ++ ".jsonl"))
  indexed : ∀ dir ∈ runtimeDirs, starts (fs.key dir)

/-- The keys of the records that an output cites. -/
def CitedKeys (reads : String → Prop) (fs : AgentFs) (citations : List String) : Prop :=
  ∀ path ∈ citations, ∀ rest, AgentFs.evidenceRelpathChecked path = .ok rest → reads (fs.key rest)

/-- The keys of the notes that a batch writes. -/
def NotedKeys (keys : String → Prop) (fs : AgentFs) (ops : List FsOp) : Prop :=
  ∀ planned, fs.planOps ops = .ok planned → ∀ entry ∈ planned, keys entry.1

theorem CitedKeys.head {reads : String → Prop} {fs : AgentFs} {path : String} {citations : List String}
    (cited : CitedKeys reads fs (path :: citations)) : CitedKeys reads fs [path] := by
  intro other member
  rw [List.mem_singleton.mp member]
  exact cited path List.mem_cons_self

theorem CitedKeys.tail {reads : String → Prop} {fs : AgentFs} {path : String} {citations : List String}
    (cited : CitedKeys reads fs (path :: citations)) : CitedKeys reads fs citations :=
  fun other member => cited other (List.mem_cons_of_mem _ member)

namespace Lockstep

variable {σ τ : Type} [AgentStorage σ] [AgentStorage τ] {rel : σ → τ → Prop} {keys reads starts : String → Prop}
  {fs : AgentFs} {first : σ} {second : τ}

theorem get_fs (lockstep : Lockstep rel keys reads starts) (alike : rel first second) {key : String} (used : reads key) :
    AgentFs.get first key = AgentFs.get second key := by
  unfold AgentFs.get
  rw [lockstep.get alike used]

theorem put_fs (lockstep : Lockstep rel keys reads starts) (alike : rel first second) {key : String} (used : keys key)
    (value : Content) : Matched rel (AgentFs.put first key value) (AgentFs.put second key value) := by
  unfold AgentFs.put
  rcases (@Lockstep.put _ _ _ _ _ _ _ _ lockstep _ _ key value alike used).cases with ⟨error, one, two⟩ |
    ⟨_, _, one, two, next⟩
  · rw [one, two]
    rfl
  · rw [one, two]
    exact next

theorem listAll (lockstep : Lockstep rel keys reads starts) (alike : rel first second) {start : String} (used : starts start) :
    AgentFs.listAll first start = AgentFs.listAll second start := by
  unfold AgentFs.listAll
  rw [lockstep.list alike used]

theorem appendToTail (lockstep : Lockstep rel keys reads starts) (alike : rel first second) {suffix : String}
    (used : keys (fs.key suffix)) (filename : String) (now : DateTime) :
    Matched rel (fs.appendToTail suffix filename now first) (fs.appendToTail suffix filename now second) := by
  unfold AgentFs.appendToTail
  rw [lockstep.get_fs alike (lockstep.reads_keys used)]
  cases AgentFs.get second (fs.key suffix) with
  | error error => rfl
  | ok existing => exact lockstep.put_fs alike used _

theorem removeFromTail (lockstep : Lockstep rel keys reads starts) (alike : rel first second) {suffix : String}
    (used : keys (fs.key suffix)) (filename : String) :
    Matched rel (fs.removeFromTail suffix filename first) (fs.removeFromTail suffix filename second) := by
  unfold AgentFs.removeFromTail
  rw [lockstep.get_fs alike (lockstep.reads_keys used)]
  cases AgentFs.get second (fs.key suffix) with
  | error error => rfl
  | ok existing =>
    cases existing with
    | none => exact alike
    | some content =>
      simp only [bind, Except.bind]
      split
      · exact alike
      · exact lockstep.put_fs alike used _

theorem reconcileTail (lockstep : Lockstep rel keys reads starts) (alike : rel first second) {suffix indexed : String}
    (used : keys (fs.key suffix)) (listed : starts (fs.key indexed)) (isRecord : String → Bool) (now : DateTime) :
    Matched rel (fs.reconcileTail suffix indexed isRecord now first) (fs.reconcileTail suffix indexed isRecord now second) := by
  unfold AgentFs.reconcileTail
  rw [lockstep.listAll alike listed, lockstep.get_fs alike (lockstep.reads_keys used)]
  cases AgentFs.listAll second (fs.key indexed) with
  | error error => rfl
  | ok found =>
    simp only [bind, Except.bind]
    split
    · exact alike
    · cases AgentFs.get second (fs.key suffix) with
      | error error => rfl
      | ok existing =>
        simp only
        split
        · exact alike
        · exact lockstep.put_fs alike used _

omit [AgentStorage σ] [AgentStorage τ] in
theorem settle (alike : rel first second) {one : Except FsError σ} {two : Except FsError τ} (matched : Matched rel one two) :
    Ended rel (AgentFs.settle first one) (AgentFs.settle second two) := by
  rcases matched.cases with ⟨error, rfl, rfl⟩ | ⟨_, _, rfl, rfl, next⟩
  · exact ⟨rfl, alike⟩
  · exact ⟨rfl, next⟩

theorem openWithStorage (lockstep : Lockstep rel keys reads starts) {raw : String} (serves : Serves keys starts (.attach raw))
    (alike : rel first second) (mandate : Mandate) (clock : Clock) :
    Ended rel (AgentFs.openWithStorage raw mandate clock first) (AgentFs.openWithStorage raw mandate clock second) := by
  have mandated := serves.own "mandate.md" (by decide)
  unfold AgentFs.openWithStorage
  simp only [lockstep.get_fs alike (lockstep.reads_keys mandated)]
  cases AgentFs.get second ((AgentFs.attach raw).key "mandate.md") with
  | error error => exact ⟨rfl, alike⟩
  | ok existing =>
    simp only
    have written : Matched rel
        (if existing.isNone then AgentFs.put first ((AgentFs.attach raw).key "mandate.md") (.text mandate.text) else .ok first)
        (if existing.isNone then AgentFs.put second ((AgentFs.attach raw).key "mandate.md") (.text mandate.text)
          else .ok second) := by
      split
      · exact lockstep.put_fs alike mandated _
      · exact alike
    obtain ⟨result, _, _, one, two, next⟩ := (settle alike written).cases
    rw [one, two]
    cases result with
    | error error => exact ⟨rfl, next⟩
    | ok done =>
      simp only
      obtain ⟨result, _, _, one, two, next⟩ := (settle next (lockstep.reconcileTail next
        (serves.own EVIDENCE_TAIL_SUFFIX (by decide)) (serves.indexed "evidence/" (by decide)) isJsonRecord (clock 0))).cases
      rw [one, two]
      cases result with
      | error error => exact ⟨rfl, next⟩
      | ok done =>
        simp only
        obtain ⟨result, _, _, one, two, next⟩ := (settle next (lockstep.reconcileTail next
          (serves.own NOTES_TAIL_SUFFIX (by decide)) (serves.indexed "notes/" (by decide)) isNoteRecord (clock 1))).cases
        rw [one, two]
        cases result with
        | error error => exact ⟨rfl, next⟩
        | ok done => exact ⟨rfl, next⟩

/-- An agent is opened as itself. -/
theorem opens (lockstep : Lockstep rel keys reads starts) {raw : String} (serves : Serves keys starts (.attach raw))
    (alike : rel first second) (mandate : Mandate) (clock : Clock) :
    ∃ result one two, AgentFs.openWithStorage raw mandate clock first = (result, one) ∧
      AgentFs.openWithStorage raw mandate clock second = (result, two) ∧ rel one two ∧
      ∀ opened, result = .ok opened → opened = .attach raw := by
  obtain ⟨result, one, two, opened, same, next⟩ := (lockstep.openWithStorage serves alike mandate clock).cases
  refine ⟨result, one, two, opened, same, next, ?_⟩
  exact (@openWithStorage_keeps σ _ (fun _ => True) _ _ _ _ _ _ opened trivial fun _ _ _ _ _ _ _ => trivial).2

theorem recordEvidence (lockstep : Lockstep rel keys reads starts) (serves : Serves keys starts fs) (alike : rel first second)
    (clock : DateTime) (observed : Observed) :
    Ended rel (fs.recordEvidence clock observed.record observed.slugSeed first)
      (fs.recordEvidence clock observed.record observed.slugSeed second) := by
  unfold AgentFs.recordEvidence
  simp only
  rcases (@Lockstep.putIfAbsent _ _ _ _ _ _ _ _ lockstep _ _ _ (.evidence observed.record) alike
    (serves.recorded observed)).cases with ⟨error, one, two⟩ | ⟨result, other, one, two, created⟩
  · unfold Observed.relpath at one two
    rw [one, two]
    exact ⟨rfl, alike⟩
  · obtain ⟨outcome, left, right, rfl, rfl, next⟩ := created.cases
    unfold Observed.relpath at one two
    rw [one, two]
    cases outcome with
    | existed => exact ⟨rfl, next⟩
    | created =>
      simp only [AgentFs.stored]
      rcases (lockstep.appendToTail next (serves.own EVIDENCE_TAIL_SUFFIX (by decide))
        ((stripStart (evidenceRelpath observed.slugSeed observed.record.id) "evidence/").getD
          (evidenceRelpath observed.slugSeed observed.record.id)) clock).cases with ⟨error, one, two⟩ | ⟨_, _, one, two, last⟩
      · rw [one, two]
        exact ⟨rfl, next⟩
      · rw [one, two]
        exact ⟨rfl, last⟩

section Citations

variable {citations : List String}

theorem readEvidenceBytes (lockstep : Lockstep rel keys reads starts) (alike : rel first second) {path : String}
    (cited : CitedKeys reads fs [path]) : fs.readEvidenceBytes first path = fs.readEvidenceBytes second path := by
  unfold AgentFs.readEvidenceBytes
  cases checked : AgentFs.evidenceRelpathChecked path with
  | error error => rfl
  | ok rest =>
    simp only [bind, Except.bind]
    rw [lockstep.get_fs alike (cited path (List.mem_singleton_self _) rest checked)]

theorem evidenceMustExist (lockstep : Lockstep rel keys reads starts) (alike : rel first second) {path : String}
    (cited : CitedKeys reads fs [path]) : fs.evidenceMustExist first path = fs.evidenceMustExist second path := by
  unfold AgentFs.evidenceMustExist
  cases checked : AgentFs.evidenceRelpathChecked path with
  | error error => rfl
  | ok rest =>
    simp only [bind, Except.bind]
    rw [lockstep.get_fs alike (cited path (List.mem_singleton_self _) rest checked)]

theorem citationsExist (lockstep : Lockstep rel keys reads starts) (alike : rel first second)
    (cited : CitedKeys reads fs citations) : fs.citationsExist first citations = fs.citationsExist second citations := by
  induction citations with
  | nil => rfl
  | cons path citations ih =>
    unfold AgentFs.citationsExist
    rw [lockstep.evidenceMustExist alike cited.head, ih cited.tail]

theorem persistOutput (lockstep : Lockstep rel keys reads starts) (serves : Serves keys starts fs) (alike : rel first second)
    (body : String) (cited : CitedKeys reads fs citations) :
    Matched rel (fs.persistOutput body citations first) (fs.persistOutput body citations second) := by
  unfold AgentFs.persistOutput
  rw [lockstep.citationsExist alike cited]
  simp only [bind, Except.bind]
  split
  · rfl
  · split
    · rfl
    · exact lockstep.put_fs alike (serves.own CANONICAL_OUTPUT (by decide)) _

variable {δ : Type} [StructuralDbStore δ] {codec : Codec} {agentId : AgentId}

theorem resolveCited (lockstep : Lockstep rel keys reads starts) (alike : rel first second) {path : String}
    (cited : CitedKeys reads fs [path]) :
    Temporal.resolveCited codec fs agentId first path = Temporal.resolveCited codec fs agentId second path := by
  unfold Temporal.resolveCited
  rw [lockstep.readEvidenceBytes alike cited]

theorem addCitations (lockstep : Lockstep rel keys reads starts) (alike : rel first second) (outputSha : BlobSha)
    (cited : CitedKeys reads fs citations) (db : δ) :
    Temporal.addCitations codec fs agentId outputSha first citations db =
      Temporal.addCitations codec fs agentId outputSha second citations db := by
  induction citations generalizing db with
  | nil => rfl
  | cons path citations ih =>
    unfold Temporal.addCitations
    rw [lockstep.resolveCited alike cited.head]
    split
    · rfl
    · split
      · rfl
      · exact ih cited.tail _

/-- The same result, stores that are still alike, and the same rows. -/
theorem persistOutputImpl (lockstep : Lockstep rel keys reads starts) {raw : String} (serves : Serves keys starts (.attach raw))
    (alike : rel first second) (clock : Clock) (body : String) (cited : CitedKeys reads (.attach raw) citations) (db : δ) :
    ∃ result one two final, Temporal.persistOutputImpl codec clock agentId raw body citations first db = (result, one, final) ∧
      Temporal.persistOutputImpl codec clock agentId raw body citations second db = (result, two, final) ∧ rel one two := by
  obtain ⟨result, one, two, opened, same, next, agent⟩ := lockstep.opens serves alike (.new "" ⟨0⟩ none) clock
  unfold Temporal.persistOutputImpl
  rw [opened, same]
  cases result with
  | error error => exact ⟨_, _, _, _, rfl, rfl, next⟩
  | ok fs =>
    obtain rfl := agent fs rfl
    simp only
    rcases (lockstep.persistOutput serves next body cited).cases with ⟨error, left, right⟩ | ⟨_, _, left, right, last⟩
    · rw [left, right]
      exact ⟨_, _, _, _, rfl, rfl, next⟩
    · rw [left, right]
      simp only
      cases StructuralDbStore.setFileVersion db agentId CANONICAL_OUTPUT (codec.ofBytes (.text body)) with
      | error error => exact ⟨_, _, _, _, rfl, rfl, last⟩
      | ok indexed =>
        simp only [lockstep.addCitations last (codec.ofBytes (.text body)) cited indexed]
        split
        · exact ⟨_, _, _, _, rfl, rfl, last⟩
        · exact ⟨_, _, _, _, rfl, rfl, last⟩

end Citations

section Notes

theorem executeOp (lockstep : Lockstep rel keys reads starts) (serves : Serves keys starts fs) (alike : rel first second)
    (now : DateTime) {key : String} (used : keys key) (op : FsOp) :
    Ended rel (fs.executeOp now key op first) (fs.executeOp now key op second) := by
  have sidecar := serves.own NOTES_TAIL_SUFFIX (by decide)
  cases op with
  | writeFile path content =>
    unfold AgentFs.executeOp
    simp only
    rcases (lockstep.put_fs alike used (.text content)).cases with ⟨error, one, two⟩ | ⟨_, _, one, two, next⟩
    · rw [one, two]
      exact ⟨rfl, alike⟩
    · rw [one, two]
      simp only
      cases stripStart key (fs.key "notes/") with
      | none => exact ⟨rfl, next⟩
      | some rest => exact settle next (lockstep.appendToTail next sidecar rest now)
  | deleteFile path =>
    unfold AgentFs.executeOp
    simp only
    rcases (@Lockstep.delete _ _ _ _ _ _ _ _ lockstep _ _ key alike used).cases with ⟨error, one, two⟩ |
      ⟨_, _, one, two, next⟩
    · rw [one, two]
      exact ⟨rfl, alike⟩
    · rw [one, two]
      simp only [AgentFs.stored]
      cases stripStart key (fs.key "notes/") with
      | none => exact ⟨rfl, next⟩
      | some rest => exact settle next (lockstep.removeFromTail next sidecar rest)

theorem executeOps (lockstep : Lockstep rel keys reads starts) (serves : Serves keys starts fs) (alike : rel first second)
    (clock : Clock) (reading : Nat) {planned : List (String × FsOp)} (used : ∀ entry ∈ planned, keys entry.1) :
    Ended rel (fs.executeOps clock reading planned first) (fs.executeOps clock reading planned second) := by
  induction planned generalizing first second reading with
  | nil => exact ⟨rfl, alike⟩
  | cons entry planned ih =>
    obtain ⟨key, op⟩ := entry
    rw [List.forall_mem_cons] at used
    unfold AgentFs.executeOps
    obtain ⟨result, _, _, one, two, next⟩ := (lockstep.executeOp serves alike (clock reading) used.1 op).cases
    rw [one, two]
    cases result with
    | error error => exact ⟨rfl, next⟩
    | ok done => exact ih next (reading + 1) used.2

theorem applyOps (lockstep : Lockstep rel keys reads starts) (serves : Serves keys starts fs) (alike : rel first second)
    (clock : Clock) {ops : List FsOp} (used : NotedKeys keys fs ops) :
    Ended rel (fs.applyOps clock ops first) (fs.applyOps clock ops second) := by
  unfold AgentFs.applyOps
  cases planned : fs.planOps ops with
  | error error => exact ⟨rfl, alike⟩
  | ok planned' => exact lockstep.executeOps serves alike clock 0 (used planned' planned)

theorem rewriteFs (lockstep : Lockstep rel keys reads starts) (serves : Serves keys starts fs) (alike : rel first second)
    (clock : Clock) {ops : List FsOp} (used : NotedKeys keys fs ops) :
    Ended rel (Coral.rewriteFs fs clock ops first) (Coral.rewriteFs fs clock ops second) := by
  unfold Coral.rewriteFs
  obtain ⟨result, _, _, one, two, next⟩ := (lockstep.applyOps serves alike clock used).cases
  rw [one, two]
  cases result with
  | error error => exact ⟨rfl, next⟩
  | ok done => exact ⟨rfl, next⟩

end Notes

section Folds

variable {codec : Codec} {graphId : GraphId}

theorem readChildOutput (lockstep : Lockstep rel keys reads starts) (alike : rel first second) {source : ReconcileSource}
    (used : reads ((AgentFs.openForAgent graphId source.childRef.agentId).key CANONICAL_OUTPUT)) :
    Temporal.readChildOutput codec graphId source first = Temporal.readChildOutput codec graphId source second := by
  unfold Temporal.readChildOutput
  simp only [lockstep.get_fs alike used]

theorem readChildOutputs (lockstep : Lockstep rel keys reads starts) (alike : rel first second) {sources : List ReconcileSource}
    (used : ∀ source ∈ sources, reads ((AgentFs.openForAgent graphId source.childRef.agentId).key CANONICAL_OUTPUT)) :
    Temporal.readChildOutputs codec graphId first sources = Temporal.readChildOutputs codec graphId second sources := by
  induction sources with
  | nil => rfl
  | cons source sources ih =>
    rw [List.forall_mem_cons] at used
    unfold Temporal.readChildOutputs
    rw [lockstep.readChildOutput alike used.1, ih used.2]

theorem writeFolds (lockstep : Lockstep rel keys reads starts) (serves : Serves keys starts fs) (alike : rel first second)
    (now : DateTime) (clock : Clock) (reading : Nat) (folds : List (ReconcileSource × String)) :
    Ended rel (Temporal.writeFolds codec fs now clock reading folds first)
      (Temporal.writeFolds codec fs now clock reading folds second) := by
  induction folds generalizing first second reading with
  | nil => exact ⟨rfl, alike⟩
  | cons fold folds ih =>
    obtain ⟨source, body⟩ := fold
    unfold Temporal.writeFolds
    obtain ⟨result, _, _, one, two, next⟩ := (lockstep.recordEvidence serves alike (clock reading)
      ⟨"reconcile", (foldRecord codec source body now).args, .string body, now, foldSeed source, now⟩).cases
    rw [show foldRecord codec source body now = Observed.record
      ⟨"reconcile", (foldRecord codec source body now).args, .string body, now, foldSeed source, now⟩ from rfl]
    simp only at one two
    rw [one, two]
    cases result with
    | error error => exact ⟨rfl, next⟩
    | ok path =>
      simp only
      obtain ⟨result, _, _, one, two, last⟩ := (ih next (reading + 1)).cases
      rw [one, two]
      cases result with
      | error error => exact ⟨rfl, last⟩
      | ok paths => exact ⟨rfl, last⟩

theorem recordConflict (lockstep : Lockstep rel keys reads starts) (serves : Serves keys starts fs) (alike : rel first second)
    (rfc3339 : DateTime → String) (now : DateTime) (intent : ConflictRecordIntent) :
    Ended rel (fs.writeConflict rfc3339 (.new now intent) first) (fs.writeConflict rfc3339 (.new now intent) second) := by
  unfold AgentFs.writeConflict
  split
  · exact ⟨rfl, alike⟩
  · simp only
    rcases (@Lockstep.putIfAbsent _ _ _ _ _ _ _ _ lockstep _ _ (fs.conflictKey (ConflictRecord.new now intent).id)
      (.json ((ConflictRecord.new now intent).toJson rfc3339)) alike (serves.conflicts _ _)).cases with
      ⟨error, one, two⟩ | ⟨_, _, one, two, ended⟩
    · rw [one, two]
      exact ⟨rfl, alike⟩
    · obtain ⟨outcome, _, _, rfl, rfl, next⟩ := ended.cases
      rw [one, two]
      exact ⟨rfl, next⟩

theorem writeConflict (lockstep : Lockstep rel keys reads starts) (serves : Serves keys starts fs) (alike : rel first second)
    (now : DateTime) (conflict : Option ConflictRecordIntent) :
    Ended rel (Temporal.writeConflict codec fs now conflict first) (Temporal.writeConflict codec fs now conflict second) := by
  unfold Temporal.writeConflict
  cases conflict with
  | none => exact ⟨rfl, alike⟩
  | some intent =>
    simp only
    obtain ⟨result, _, _, one, two, next⟩ := (lockstep.recordConflict serves alike codec.rfc3339 now intent).cases
    rw [one, two]
    split
    · exact ⟨rfl, alike⟩
    · cases result with
      | error error => exact ⟨rfl, next⟩
      | ok id => exact ⟨rfl, next⟩

theorem reconcileChildrenImpl (lockstep : Lockstep rel keys reads starts) {input : ReconcileChildrenInput}
    (serves : Serves keys starts (.openForAgent input.parentGraphId input.parentAgentId))
    (children : ∀ source ∈ input.sources,
      reads ((AgentFs.openForAgent input.parentGraphId source.childRef.agentId).key CANONICAL_OUTPUT))
    (alike : rel first second) (now : DateTime) (clock : Clock) :
    Ended rel (Temporal.reconcileChildrenImpl codec input now clock first)
      (Temporal.reconcileChildrenImpl codec input now clock second) := by
  unfold Temporal.reconcileChildrenImpl
  simp only [lockstep.readChildOutputs alike children]
  cases Temporal.readChildOutputs codec input.parentGraphId second input.sources with
  | error error => exact ⟨rfl, alike⟩
  | ok outputs =>
    simp only
    obtain ⟨result, _, _, one, two, next⟩ := (lockstep.writeFolds serves alike now clock 0 outputs).cases
    rw [one, two]
    cases result with
    | error error => exact ⟨rfl, next⟩
    | ok paths =>
      simp only
      obtain ⟨result, _, _, one, two, last⟩ := (lockstep.writeConflict serves next now input.conflict).cases
      rw [one, two]
      cases result with
      | error error => exact ⟨rfl, last⟩
      | ok id => exact ⟨rfl, last⟩

end Folds

section Reads

theorem getMany (lockstep : Lockstep rel keys reads starts) (alike : rel first second) {among : List String}
    (used : ∀ key ∈ among, reads key) : AgentStorage.getMany first among = AgentStorage.getMany second among := by
  unfold AgentStorage.getMany
  induction among with
  | nil => rfl
  | cons key among ih =>
    rw [List.forall_mem_cons] at used
    rw [List.mapM_cons, List.mapM_cons, lockstep.get alike used.1, ih used.2]

theorem readFile (lockstep : Lockstep rel keys reads starts) (alike : rel first second) (render : Content → String)
    {path : String} (used : ∀ rest, AgentFs.cleanRelpath path = .ok rest → reads (fs.key rest)) :
    fs.readFile render first path = fs.readFile render second path := by
  unfold AgentFs.readFile
  cases cleaned : AgentFs.cleanRelpath path with
  | error error => rfl
  | ok rest =>
    simp only [bind, Except.bind]
    rw [lockstep.get_fs alike (used rest cleaned)]

theorem fileExists (lockstep : Lockstep rel keys reads starts) (alike : rel first second) {path : String}
    (used : ∀ rest, AgentFs.cleanRelpath path = .ok rest → reads (fs.key rest)) :
    fs.fileExists first path = fs.fileExists second path := by
  unfold AgentFs.fileExists
  cases cleaned : AgentFs.cleanRelpath path with
  | error error => rfl
  | ok rest =>
    simp only [bind, Except.bind]
    rw [lockstep.get_fs alike (used rest cleaned)]

theorem listDir (lockstep : Lockstep rel keys reads starts) (alike : rel first second) {path : String}
    (used : ∀ start, fs.dirPrefix path = .ok start → starts start) : fs.listDir first path = fs.listDir second path := by
  unfold AgentFs.listDir
  cases found : fs.dirPrefix path with
  | error error => rfl
  | ok start =>
    simp only [bind, Except.bind]
    rw [lockstep.listAll alike (used start found)]

theorem search (lockstep : Lockstep rel keys reads starts) (alike : rel first second) (render : Content → String)
    (query : String) {path : Option String} (used : ∀ start, fs.searchPrefix path = .ok start → starts start) :
    fs.search render first query path = fs.search render second query path := by
  unfold AgentFs.search
  cases found : fs.searchPrefix path with
  | error error => rfl
  | ok start =>
    have scope := used start found
    simp only [bind, Except.bind]
    rw [lockstep.listAll alike scope]
    cases listed : AgentFs.listAll second start with
    | error error => rfl
    | ok among =>
      have read : ∀ key ∈ among.filter fun key => !endsWithText key "/_tail.json", reads key := by
        intro key member
        rw [← lockstep.listAll alike scope] at listed
        obtain ⟨page, raw, whole⟩ := bind_ok listed
        cases whole
        exact lockstep.listed alike scope (raw_ok raw) key (List.mem_of_mem_filter member)
      simp only
      rw [lockstep.getMany alike read]

theorem recentWindow (lockstep : Lockstep rel keys reads starts) (alike : rel first second) {suffix indexed : String}
    (used : reads (fs.key suffix)) (listed : ∀ start, fs.dirPrefix indexed = .ok start → starts start) (n : Nat) :
    fs.recentWindow first suffix indexed n = fs.recentWindow second suffix indexed n := by
  unfold AgentFs.recentWindow
  rw [lockstep.get_fs alike used, lockstep.listDir alike listed]

/-- The seed is the same. -/
theorem buildSeed (lockstep : Lockstep rel keys reads starts) (serves : Serves keys starts fs)
    (status : reads (fs.key STATUS_NOTE_PATH)) (alike : rel first second) (triggers : List Trigger) (cfg : Mandate) :
    Coral.buildSeed fs triggers cfg first = Coral.buildSeed fs triggers cfg second := by
  have window : fs.recentNoteFilenames first SEED_INDEX_NOTES = fs.recentNoteFilenames second SEED_INDEX_NOTES := by
    refine lockstep.recentWindow alike (lockstep.reads_keys (serves.own NOTES_TAIL_SUFFIX (by decide))) (fun start found => ?_) _
    rw [dirPrefix_notes] at found
    obtain rfl := Except.ok.inj found
    exact serves.indexed "notes/" (by decide)
  have standing : ∀ notes, pinsStatusNote fs first notes = pinsStatusNote fs second notes := by
    intro notes
    unfold pinsStatusNote
    rw [lockstep.fileExists alike fun rest cleaned => ?_]
    rw [show AgentFs.cleanRelpath STATUS_NOTE_PATH = .ok STATUS_NOTE_PATH from by decide] at cleaned
    obtain rfl := Except.ok.inj cleaned
    exact status
  have outputs : fs.recentOutputFilenames first SEED_INDEX_OUTPUTS = fs.recentOutputFilenames second SEED_INDEX_OUTPUTS := by
    unfold AgentFs.recentOutputFilenames
    simp only [lockstep.list alike (serves.indexed "outputs/" (by decide))]
  unfold Coral.buildSeed
  simp only [window, standing, outputs]

/-- What a navigation reads. -/
def ReadKeys (reads starts : String → Prop) (fs : AgentFs) : FsNavOp → Prop
  | .read path => ∀ rest, AgentFs.cleanRelpath path = .ok rest → reads (fs.key rest)
  | .list path => ∀ start, fs.dirPrefix path = .ok start → starts start
  | .search _ path => ∀ start, fs.searchPrefix path = .ok start → starts start

theorem readFsImpl (lockstep : Lockstep rel keys reads starts) (alike : rel first second) (render : Content → String)
    {fsHandle : FsHandle} {op : FsNavOp} (used : ReadKeys reads starts (.attach fsHandle.storagePrefix) op) :
    Temporal.readFsImpl render fsHandle op first = Temporal.readFsImpl render fsHandle op second := by
  cases op with
  | read path =>
    simp only [Temporal.readFsImpl, FsNavOp.intoDecision, executeStep, lockstep.readFile alike render used, Option.map_some]
  | list path =>
    simp only [Temporal.readFsImpl, FsNavOp.intoDecision, executeStep, lockstep.listDir alike used, Option.map_some]
  | search query path =>
    simp only [Temporal.readFsImpl, FsNavOp.intoDecision, executeStep, lockstep.search alike render query used,
      Option.map_some]

end Reads

section Activities

variable {codec : Codec} {raw : String}

theorem executeTool (lockstep : Lockstep rel keys reads starts) {fsHandle : FsHandle}
    (serves : Serves keys starts (.attach fsHandle.storagePrefix)) (alike : rel first second)
    (registry : Except String ToolRegistry) (allowedTools : List String) (call : ToolCall) (clock : Clock) :
    Ended rel (Temporal.executeTool fsHandle registry allowedTools call clock first)
      (Temporal.executeTool fsHandle registry allowedTools call clock second) := by
  unfold Temporal.executeTool
  cases dispatched : dispatchTool registry allowedTools call (clock 0) with
  | error failure => exact ⟨rfl, alike⟩
  | ok record =>
    obtain ⟨answer, rfl⟩ := dispatchTool_ok dispatched
    simp only
    obtain ⟨result, _, _, one, two, next, agent⟩ := lockstep.opens serves alike placeholderMandate
      fun reading => clock (reading + 1)
    rw [one, two]
    cases result with
    | error error => exact ⟨rfl, next⟩
    | ok fs =>
      obtain rfl := agent fs rfl
      simp only
      obtain ⟨result, _, _, one, two, last⟩ := (lockstep.recordEvidence serves next (clock 3)
        ⟨call.name, call.args, answer, clock 0, call.claimSeed, clock 3⟩).cases
      unfold Observed.record at one two
      rw [one, two]
      cases result with
      | error error => exact ⟨rfl, last⟩
      | ok path => exact ⟨rfl, last⟩

theorem buildSeedImpl (lockstep : Lockstep rel keys reads starts) {fsHandle : FsHandle}
    (serves : Serves keys starts (.attach fsHandle.storagePrefix))
    (status : reads ((AgentFs.attach fsHandle.storagePrefix).key STATUS_NOTE_PATH)) (alike : rel first second) (mandate : Mandate)
    (triggers : List Trigger) (humanOps : List HumanOp) (patches : List MandatePatch) (clock : Clock) :
    Ended rel (Temporal.buildSeedImpl mandate fsHandle triggers humanOps patches clock first)
      (Temporal.buildSeedImpl mandate fsHandle triggers humanOps patches clock second) := by
  unfold Temporal.buildSeedImpl
  obtain ⟨result, _, _, one, two, next, agent⟩ := lockstep.opens serves alike mandate clock
  rw [one, two]
  cases result with
  | error error => exact ⟨rfl, next⟩
  | ok fs =>
    obtain rfl := agent fs rfl
    exact ⟨lockstep.buildSeed serves status next _ _, next⟩

theorem applyFsOpsImpl (lockstep : Lockstep rel keys reads starts) {fsHandle : FsHandle}
    (serves : Serves keys starts (.attach fsHandle.storagePrefix)) (alike : rel first second) (mandate : Mandate)
    {ops : List FsOp} (used : NotedKeys keys (.attach fsHandle.storagePrefix) ops) (clock : Clock) :
    Ended rel (Temporal.applyFsOpsImpl fsHandle mandate ops clock first)
      (Temporal.applyFsOpsImpl fsHandle mandate ops clock second) := by
  unfold Temporal.applyFsOpsImpl
  obtain ⟨result, _, _, one, two, next, agent⟩ := lockstep.opens serves alike mandate clock
  rw [one, two]
  cases result with
  | error error => exact ⟨rfl, next⟩
  | ok fs =>
    obtain rfl := agent fs rfl
    simp only
    obtain ⟨result, _, _, one, two, last⟩ := (lockstep.rewriteFs serves next (fun reading => clock (reading + 2)) used).cases
    rw [one, two]
    cases result with
    | error error => exact ⟨rfl, last⟩
    | ok outcome => exact ⟨rfl, last⟩

theorem persistRetirement (lockstep : Lockstep rel keys reads starts) {fsHandle : FsHandle}
    (serves : Serves keys starts (.attach fsHandle.storagePrefix)) (alike : rel first second) (reason : String)
    (retiredAt : DateTime) :
    Ended rel (Temporal.persistRetirement codec fsHandle reason retiredAt first)
      (Temporal.persistRetirement codec fsHandle reason retiredAt second) :=
  settle alike (lockstep.put_fs alike (serves.own "retirement.json" (by decide)) _)

theorem appendDecisionLogImpl (lockstep : Lockstep rel keys reads starts) {fsHandle : FsHandle}
    (serves : Serves keys starts (.attach fsHandle.storagePrefix)) (alike : rel first second) (entry : DecisionLogEntry) :
    Ended rel (Temporal.appendDecisionLogImpl codec fsHandle entry first)
      (Temporal.appendDecisionLogImpl codec fsHandle entry second) :=
  settle alike (lockstep.put_fs alike (serves.decisions entry.tick.toNat entry.step.toNat) _)

end Activities

end Lockstep

end Coral.Proofs

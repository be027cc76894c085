import Coral.Library.Machine
import Coral.Proofs.NotesIndex

/-! The authorship boundary: whatever its paths are, a batch changes the notes it names and
the sidecar, and a read looks at nothing outside the agent's prefix. -/

namespace Coral.Proofs
open Coral.Library LawfulStorage

/-- The path of the operation is accepted, and this is the key it stands for. -/
def Accepted (fs : AgentFs) (op : FsOp) (key : String) : Prop := fs.planOps [op] = .ok [(key, op)]

def Rejected (fs : AgentFs) (op : FsOp) : Prop := ∃ error, fs.planOps [op] = .error error

/-- A key of plain names below the prefix, or what the keys in such a directory start with. -/
def Inside (fs : AgentFs) (key : String) : Prop :=
  ∃ path : List Name, key = fs.key (joinPath path) ∨ key = fs.key (joinPath path ++ "/")

/-- Every batch counts, whether or not it comes to an end. -/
def fileBatches {σ : Type} [AgentStorage σ] (fs : AgentFs) : Machine σ (Clock × List FsOp) (Except FsError Unit) :=
  ⟨fun storage (clock, ops) => some ((fs.applyOps clock ops storage).2, [(fs.applyOps clock ops storage).1])⟩

section Planned

variable {fs : AgentFs}

theorem accepted_iff {op : FsOp} {key : String} :
    Accepted fs op key ↔ ∃ path, notePath op.path = some path ∧ key = noteKey fs path := by
  have spec := planOp_spec fs op []
  unfold Accepted
  split at spec
  · rename_i path named
    rw [spec]
    constructor
    · intro same
      cases same
      exact ⟨path, named, rfl⟩
    · intro ⟨other, again, same⟩
      rw [named] at again
      cases again
      rw [same]
      rfl
  · rename_i unnamed
    obtain ⟨error, failed, -⟩ := spec
    rw [failed, unnamed]
    constructor
    · intro impossible
      cases impossible
    · intro ⟨path, impossible, _⟩
      cases impossible

theorem rejected_iff {op : FsOp} : Rejected fs op ↔ notePath op.path = none := by
  have spec := planOp_spec fs op []
  unfold Rejected
  split at spec
  · rename_i path named
    rw [spec, named]
    constructor
    · intro ⟨error, impossible⟩
      cases impossible
    · intro impossible
      cases impossible
  · rename_i unnamed
    obtain ⟨error, failed, -⟩ := spec
    exact ⟨fun _ => unnamed, fun _ => ⟨error, failed⟩⟩

end Planned

section Writes

variable {σ : Type} [AgentStorage σ] [LawfulStorage σ] {fs : AgentFs} {storage : σ}

private theorem settle_frame {middle : σ} {result : Except FsError σ} {other : Place σ}
    (kept : ∀ after, result = .ok after → view after other = view middle other) :
    view (AgentFs.settle middle result).2 other = view middle other := by
  cases result with
  | error error => rfl
  | ok after => exact kept after rfl

theorem executeOp_frame (now : DateTime) (key : String) (op : FsOp) {other : Place σ} (note : other ≠ place key)
    (sidecar : other ≠ place (fs.key NOTES_TAIL_SUFFIX)) :
    view (fs.executeOp now key op storage).2 other = view storage other := by
  cases op with
  | writeFile path content =>
    simp only [AgentFs.executeOp]
    cases wrote : AgentFs.put storage key (.text content) with
    | error error => rfl
    | ok middle =>
      have noted : view middle other = view storage other := by
        rw [(put_spec wrote).2 other, if_neg note]
      rw [← noted]
      cases stripStart key (fs.key "notes/") with
      | none => rfl
      | some rel =>
        apply settle_frame
        intro after followed
        rw [(appendToTail_ok followed).2 other, if_neg sidecar]
  | deleteFile path =>
    simp only [AgentFs.executeOp]
    cases deleted : AgentFs.stored key (AgentStorage.delete storage key) with
    | error error => rfl
    | ok middle =>
      have noted : view middle other = view storage other := by
        rw [(delete_spec deleted).1 other, if_neg note]
      rw [← noted]
      cases stripStart key (fs.key "notes/") with
      | none => rfl
      | some rel =>
        apply settle_frame
        intro after followed
        rcases (removeFromTail_ok followed).2 with ⟨same, -⟩ | tailed
        · rw [same]
        · rw [tailed other, if_neg sidecar]

theorem executeOps_frame (clock : Clock) (reading : Nat) (planned : List (String × FsOp)) {other : Place σ}
    (notes : ∀ step ∈ planned, other ≠ place step.1) (sidecar : other ≠ place (fs.key NOTES_TAIL_SUFFIX)) :
    view (fs.executeOps clock reading planned storage).2 other = view storage other := by
  induction planned generalizing reading storage with
  | nil => rfl
  | cons step planned ih =>
    obtain ⟨key, op⟩ := step
    have first : view (fs.executeOp (clock reading) key op storage).2 other = view storage other :=
      executeOp_frame (clock reading) key op (notes (key, op) List.mem_cons_self) sidecar
    rw [List.forall_mem_cons] at notes
    unfold AgentFs.executeOps
    split
    · rename_i after executed
      rw [executed] at first
      rw [ih (reading + 1) notes.2, first]
    · rename_i error after executed
      rw [executed] at first
      exact first

omit [LawfulStorage σ] in
theorem applyOps_rejected {clock : Clock} {ops : List FsOp} (rejected : ∃ op ∈ ops, Rejected fs op) :
    (fs.applyOps clock ops storage).2 = storage := by
  obtain ⟨op, member, refused⟩ := rejected
  unfold AgentFs.applyOps
  split
  · rename_i planned plan
    obtain ⟨_, -, path, named, -⟩ := forall₂_mem_left (planOps_ok plan) member
    rw [rejected_iff.mp refused] at named
    cases named
  · rfl

/-- What a batch changes is the sidecar or a note that one of its operations names. -/
theorem applyOps_frame (clock : Clock) (ops : List FsOp) {other : Place σ}
    (changed : view (fs.applyOps clock ops storage).2 other ≠ view storage other) :
    other = place (fs.key NOTES_TAIL_SUFFIX) ∨
      (¬ ∃ op ∈ ops, Rejected fs op) ∧ ∃ op ∈ ops, ∃ key, Accepted fs op key ∧ other = place key := by
  by_contra untouched
  obtain ⟨sidecar, unnamed⟩ := not_or.mp untouched
  apply changed
  by_cases rejected : ∃ op ∈ ops, Rejected fs op
  · rw [applyOps_rejected rejected]
  · have apart : ∀ op ∈ ops, ∀ key, Accepted fs op key → other ≠ place key := by
      intro op member key accepted same
      exact unnamed ⟨rejected, op, member, key, accepted, same⟩
    unfold AgentFs.applyOps
    split
    · rename_i planned plan
      refine executeOps_frame clock 0 planned ?_ sidecar
      intro step member
      obtain ⟨op, listed, path, named, rfl⟩ := forall₂_mem_right (planOps_ok plan) member
      exact apart op listed _ (accepted_iff.mpr ⟨path, named, rfl⟩)
    · rfl

theorem fileBatches_frame {final : σ} {batches : List (Clock × List FsOp)} {results : List (Except FsError Unit)}
    (ran : (fileBatches fs).run storage batches = some (final, results)) {other : Place σ}
    (changed : view final other ≠ view storage other) :
    other = place (fs.key NOTES_TAIL_SUFFIX) ∨ ∃ batch ∈ batches, (¬ ∃ op ∈ batch.2, Rejected fs op) ∧
      ∃ op ∈ batch.2, ∃ key, Accepted fs op key ∧ other = place key := by
  induction batches generalizing storage results with
  | nil =>
    cases ran
    exact (changed rfl).elim
  | cons batch batches ih =>
    obtain ⟨middle, first, rest, stepped, continued, -⟩ := (fileBatches fs).run_cons.mp ran
    by_cases later : view final other = view middle other
    · cases stepped
      rw [later] at changed
      rcases applyOps_frame batch.1 batch.2 changed with sidecar | ⟨sound, named⟩
      · exact .inl sidecar
      · exact .inr ⟨batch, List.mem_cons_self, sound, named⟩
    · rcases ih continued later with sidecar | ⟨found, member, named⟩
      · exact .inl sidecar
      · exact .inr ⟨found, List.mem_cons_of_mem _ member, named⟩

end Writes

section Reads

variable {σ τ : Type} [AgentStorage σ] [AgentStorage τ]

/-- The two stores answer alike when they are asked about the agent's own keys. -/
structure Agree (fs : AgentFs) (first : σ) (second : τ) : Prop where
  get : ∀ key, Inside fs key → AgentStorage.get first key = AgentStorage.get second key
  list : ∀ start, Inside fs start → AgentStorage.list first start none usizeMax = AgentStorage.list second start none usizeMax
  listed : ∀ start page, Inside fs start → AgentStorage.list first start none usizeMax = .ok page →
    ∀ key ∈ page.keys, startsWithText key fs.storagePrefix = true →
      AgentStorage.get first key = AgentStorage.get second key

variable {fs : AgentFs} {first : σ} {second : τ}

omit [AgentStorage σ] [AgentStorage τ] in
theorem cleanRelpath_ok {path rel : String} (cleaned : AgentFs.cleanRelpath path = .ok rel) :
    ∃ parts, rel = joinPath parts := by
  unfold AgentFs.cleanRelpath at cleaned
  split at cleaned
  · rename_i parts _
    cases cleaned
    exact ⟨parts, rfl⟩
  · cases cleaned

theorem inside_dirPrefix {path start : String} (found : fs.dirPrefix path = .ok start) : Inside fs start := by
  unfold AgentFs.dirPrefix at found
  cases cleaned : AgentFs.cleanRelpath path with
  | error error =>
    rw [cleaned] at found
    cases found
  | ok rel =>
    rw [cleaned] at found
    cases found
    obtain ⟨parts, rfl⟩ := cleanRelpath_ok cleaned
    refine ⟨parts, ?_⟩
    split
    · exact .inl rfl
    · exact .inr rfl

omit [AgentStorage σ] [AgentStorage τ] in
theorem evidenceRelpathChecked_ok {path rel : String} (checked : AgentFs.evidenceRelpathChecked path = .ok rel) :
    AgentFs.cleanRelpath path = .ok rel ∧ startsWithText rel "evidence/" = true ∧ rel ≠ EVIDENCE_TAIL_SUFFIX := by
  unfold AgentFs.evidenceRelpathChecked at checked
  cases cleaned : AgentFs.cleanRelpath path with
  | error error =>
    rw [cleaned] at checked
    cases checked
  | ok other =>
    rw [cleaned] at checked
    simp only [bind, Except.bind] at checked
    split at checked
    · cases checked
    · rename_i citable
      cases checked
      obtain ⟨-, rest⟩ := not_or.mp citable
      obtain ⟨below, record⟩ := not_or.mp rest
      exact ⟨rfl, by simpa using below, record⟩

private theorem Agree.read (agree : Agree fs first second) {path rel : String}
    (cleaned : AgentFs.cleanRelpath path = .ok rel) : AgentFs.get first (fs.key rel) = AgentFs.get second (fs.key rel) := by
  obtain ⟨parts, rfl⟩ := cleanRelpath_ok cleaned
  unfold AgentFs.get
  rw [agree.get _ ⟨parts, .inl rfl⟩]

private theorem Agree.listAll (agree : Agree fs first second) {start : String} (inside : Inside fs start) :
    AgentFs.listAll first start = AgentFs.listAll second start := by
  unfold AgentFs.listAll
  rw [agree.list start inside]

theorem Agree.readFile (agree : Agree fs first second) (render : Content → String) (path : String) :
    fs.readFile render first path = fs.readFile render second path := by
  unfold AgentFs.readFile
  cases cleaned : AgentFs.cleanRelpath path with
  | error error => rfl
  | ok rel =>
    simp only [bind, Except.bind]
    rw [agree.read cleaned]

theorem Agree.fileExists (agree : Agree fs first second) (path : String) :
    fs.fileExists first path = fs.fileExists second path := by
  unfold AgentFs.fileExists
  cases cleaned : AgentFs.cleanRelpath path with
  | error error => rfl
  | ok rel =>
    simp only [bind, Except.bind]
    rw [agree.read cleaned]

theorem Agree.readEvidenceBytes (agree : Agree fs first second) (path : String) :
    fs.readEvidenceBytes first path = fs.readEvidenceBytes second path := by
  unfold AgentFs.readEvidenceBytes
  cases checked : AgentFs.evidenceRelpathChecked path with
  | error error => rfl
  | ok rel =>
    simp only [bind, Except.bind]
    rw [agree.read (evidenceRelpathChecked_ok checked).1]

theorem Agree.listDir (agree : Agree fs first second) (path : String) : fs.listDir first path = fs.listDir second path := by
  unfold AgentFs.listDir
  cases found : fs.dirPrefix path with
  | error error => rfl
  | ok start =>
    simp only [bind, Except.bind]
    rw [agree.listAll (inside_dirPrefix found)]

private theorem getMany_congr {keys : List String}
    (same : ∀ key ∈ keys, AgentStorage.get first key = AgentStorage.get second key) :
    AgentStorage.getMany first keys = AgentStorage.getMany second keys := by
  unfold AgentStorage.getMany
  induction keys with
  | nil => rfl
  | cons key keys ih =>
    rw [List.forall_mem_cons] at same
    rw [List.mapM_cons, List.mapM_cons, same.1, ih same.2]

theorem inside_searchPrefix {scope : Option String} {start : String} (found : fs.searchPrefix scope = .ok start) :
    Inside fs start := by
  cases scope with
  | none =>
    cases found
    exact ⟨[], .inl (String.append_empty).symm⟩
  | some path => exact inside_dirPrefix found

omit [AgentStorage σ] [AgentStorage τ] in
theorem startsWithText_inside {start key : String} (inside : Inside fs start) (below : startsWithText key start = true) :
    startsWithText key fs.storagePrefix = true := by
  unfold startsWithText at below ⊢
  rw [List.isPrefixOf_iff_prefix] at below ⊢
  obtain ⟨path, same | same⟩ := inside
  · rw [same, AgentFs.key, String.toList_append] at below
    exact (List.prefix_append _ _).trans below
  · rw [same, AgentFs.key, String.toList_append] at below
    exact (List.prefix_append _ _).trans below

theorem Agree.search [LawfulStorage σ] (agree : Agree fs first second) (render : Content → String) (query : String)
    (scope : Option String) : fs.search render first query scope = fs.search render second query scope := by
  unfold AgentFs.search
  cases found : fs.searchPrefix scope with
  | error error => rfl
  | ok start =>
    have inside := inside_searchPrefix found
    have same := agree.listAll inside
    simp only [bind, Except.bind, ← same]
    cases listing : AgentFs.listAll first start with
    | error error => rfl
    | ok listed =>
      have blobs : ∀ keys : List String, keys.Sublist listed →
          AgentStorage.getMany first keys = AgentStorage.getMany second keys := by
        intro keys among
        apply getMany_congr
        intro key member
        unfold AgentFs.listAll at listing
        cases page : AgentStorage.list first start none usizeMax with
        | error source =>
          rw [page] at listing
          cases listing
        | ok result =>
          rw [page] at listing
          cases listing
          have here := among.subset member
          exact agree.listed start result inside page key here
            (startsWithText_inside inside (list_ok first start none usizeMax result page key here).1)
      simp only
      rw [blobs _ List.filter_sublist]

/-- In memory, the stores agree as soon as the values under the prefix do. -/
theorem agree_memory {first second : MemoryStorage}
    (same : ∀ key, startsWithText key fs.storagePrefix = true → first.inner.lookup key = second.inner.lookup key) :
    Agree fs first second := by
  have inside : ∀ key, Inside fs key → startsWithText key fs.storagePrefix = true :=
    fun key inside => startsWithText_inside inside (by simp [startsWithText])
  have got : ∀ key, startsWithText key fs.storagePrefix = true →
      AgentStorage.get first key = AgentStorage.get second key := by
    intro key below
    change Except.ok (first.inner.lookup key) = Except.ok (second.inner.lookup key)
    rw [same key below]
  refine ⟨fun key below => got key (inside key below), ?_, fun _ _ _ _ key _ below => got key below⟩
  intro start below
  change Except.ok (ListPage.of (first.inner.keys.filter fun key => startsWithText key start) none usizeMax) =
    .ok (.of (second.inner.keys.filter fun key => startsWithText key start) none usizeMax)
  congr 1
  apply ListPage.of_congr (first.inner.keys_nodup.filter _) (second.inner.keys_nodup.filter _)
  intro key
  rw [List.mem_filter, List.mem_filter]
  apply and_congr_left
  intro listed
  rw [← AList.mem_keys, ← AList.mem_keys, ← AList.lookup_isSome, ← AList.lookup_isSome,
    same key (startsWithText_inside below listed)]

end Reads

/-- A batch writes the notes it names and the sidecar, a rejected one writes nothing, and
every read depends on the agent's own keys alone. -/
theorem authorship_boundary {σ τ : Type} [AgentStorage σ] [AgentStorage τ] [LawfulStorage σ] (fs : AgentFs) :
    (∀ (storage final : σ) (batches : List (Clock × List FsOp)) (results : List (Except FsError Unit)),
      (fileBatches fs).run storage batches = some (final, results) →
      ∀ other : Place σ, view final other ≠ view storage other →
        ∃ key, other = place key ∧ startsWithText key (fs.key "notes/") = true ∧
          (key = fs.key NOTES_TAIL_SUFFIX ∨ ∃ batch ∈ batches, (¬ ∃ op ∈ batch.2, Rejected fs op) ∧
            ∃ op ∈ batch.2, Accepted fs op key)) ∧
    (∀ (storage : σ) (clock : Clock) (ops : List FsOp), (∃ op ∈ ops, Rejected fs op) →
      (fs.applyOps clock ops storage).2 = storage) ∧
    ∀ (first : σ) (second : τ), Agree fs first second → ∀ (render : Content → String) (path query : String)
        (scope : Option String),
      fs.readFile render first path = fs.readFile render second path ∧
      fs.listDir first path = fs.listDir second path ∧
      fs.search render first query scope = fs.search render second query scope ∧
      fs.fileExists first path = fs.fileExists second path ∧
      fs.readEvidenceBytes first path = fs.readEvidenceBytes second path := by
  have below : ∀ rest, startsWithText (fs.key ("notes/" ++ rest)) (fs.key "notes/") = true := by
    intro rest
    rw [key_append]
    exact startsWithText_append _ _
  refine ⟨?_, fun storage clock ops => applyOps_rejected, ?_⟩
  · intro storage final batches results ran other changed
    rcases fileBatches_frame ran changed with sidecar | ⟨batch, member, sound, op, listed, key, accepted, named⟩
    · exact ⟨_, sidecar, below "_tail.json", .inl rfl⟩
    · refine ⟨key, named, ?_, .inr ⟨batch, member, sound, op, listed, accepted⟩⟩
      obtain ⟨path, -, rfl⟩ := accepted_iff.mp accepted
      exact below (joinPath path)
  · intro first second agree render path query scope
    exact ⟨agree.readFile render path, agree.listDir path, agree.search render query scope, agree.fileExists path,
      agree.readEvidenceBytes path⟩

theorem authorship_boundary_other_agent :
    ((⟨"a/"⟩ : AgentFs).applyOps (fun _ => ⟨0⟩) [.writeFile "notes/x" "", .deleteFile "notes/../mandate.md"]
        (⟨(∅ : AList fun _ : String => Content).insert "b/x" (.text "")⟩ : MemoryStorage)).2 =
        ⟨(∅ : AList fun _ : String => Content).insert "b/x" (.text "")⟩ ∧
      (⟨"a/"⟩ : AgentFs).readFile (fun _ => "")
          (⟨(∅ : AList fun _ : String => Content).insert "b/x" (.text "")⟩ : MemoryStorage) "x" =
        (⟨"a/"⟩ : AgentFs).readFile (fun _ => "") (⟨∅⟩ : MemoryStorage) "x" := by
  obtain ⟨-, rejected, reads⟩ := @authorship_boundary MemoryStorage MemoryStorage _ _ _ ⟨"a/"⟩
  refine ⟨rejected _ _ _ ⟨.deleteFile "notes/../mandate.md", by simp, .pathTraversal "notes/../mandate.md", rfl⟩, ?_⟩
  refine (reads _ _ (agree_memory ?_) (fun _ => "") "x" "" none).1
  intro key below
  apply AList.lookup_insert_ne
  intro other
  rw [other] at below
  revert below
  decide

end Coral.Proofs

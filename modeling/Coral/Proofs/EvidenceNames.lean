import Coral.Library.Machine
import Coral.Proofs.NotesIndex
import Coral.Proofs.SlugBodies

/-! Evidence is found again under its path as long as no two records share one: the name
keeps eight digits of the id, and a record that is there already stays. -/

namespace Coral.Proofs
open Coral.Library LawfulStorage

/-- A file is created where nothing was, and is left alone where something was. -/
class ExclusiveStorage (σ : Type) [AgentStorage σ] [LawfulStorage σ] : Prop where
  created_vacant : ∀ {storage after : σ} {key : String} {value : Content},
    AgentStorage.putIfAbsent storage key value = .ok (.created, after) → vacant storage key
  existed_vacant : ∀ {storage after : σ} {key : String} {value : Content},
    AgentStorage.putIfAbsent storage key value = .ok (.existed, after) →
      ∀ other, vacant after other → vacant storage other

instance : ExclusiveStorage MemoryStorage where
  created_vacant written := (putIfAbsent_created _ _ _ _ written).1
  existed_vacant := by
    intro storage after key value written other
    change (if _ then _ else _) = _ at written
    split at written <;> cases written
    exact id

instance : ExclusiveStorage LocalStorage where
  created_vacant := by
    intro storage after key value written
    change storage.putIfAbsent key value = _ at written
    unfold LocalStorage.putIfAbsent at written
    split at written
    · cases written
    · rename_i middle made
      split at written
      · rename_i tree created
        have absent := (FileTree.createNew_ok created).1
        rw [(FileTree.createDirAll_ok made).2] at absent
        split at absent
        · cases absent
        · exact absent
      · cases written
      · cases written
  existed_vacant := by
    intro storage after key value written other free
    change storage.putIfAbsent key value = _ at written
    unfold LocalStorage.putIfAbsent at written
    split at written
    · cases written
    · rename_i middle made
      split at written <;> cases written
      change middle.lookup (keyPath other) = none at free
      rw [(FileTree.createDirAll_ok made).2] at free
      split at free
      · cases free
      · exact free

/-- One call of `record_evidence`, with the record that is built for it. -/
structure Observed where
  tool : String
  args : Json
  result : Json
  createdAt : DateTime
  slugSeed : String
  now : DateTime

namespace Observed

def record (observed : Observed) : EvidenceRecord :=
  .new observed.tool observed.args observed.result observed.createdAt

def relpath (observed : Observed) : String := evidenceRelpath observed.slugSeed observed.record.id

end Observed

def recordings {σ : Type} [AgentStorage σ] (fs : AgentFs) : Machine σ Observed String :=
  ⟨fun storage observed =>
    match fs.recordEvidence observed.now observed.record observed.slugSeed storage with
    | (.ok path, after) => some (after, [path])
    | (.error _, _) => none⟩

/-- No two different observations come to one path. -/
def Apart (history : List Observed) : Prop :=
  ∀ first ∈ history, ∀ second ∈ history, first.relpath = second.relpath → first.record.id = second.record.id

instance (history : List Observed) : Decidable (Apart history) :=
  inferInstanceAs (Decidable (∀ first ∈ history, ∀ second ∈ history, _ → _))

section Names

private theorem wordChar_id (tool : String) (args result : Json) :
    ∀ char ∈ (EvidenceId.new tool args result).hex.toList, wordChar char = true := by
  intro char member
  unfold EvidenceId.new at member
  simp only [String.toList_ofList] at member
  exact wordChar_hexDigits _ char member

/-- A path of evidence is a word below `evidence/`, with the ending of a record. -/
theorem relpath_word (observed : Observed) :
    ∃ body : List Char, observed.relpath = "evidence/" ++ (String.ofList body ++ ".json") ∧
      ∀ char ∈ body, wordChar char = true := by
  obtain ⟨stem, plain, path⟩ := evidenceRelpath_stem observed.slugSeed
  refine ⟨stem ++ observed.record.id.hex.toList.take 8, ?_, ?_⟩
  · unfold Observed.relpath
    rw [path, String.ofList_append, String.append_assoc, String.append_assoc, String.append_assoc]
  · intro char member
    rcases List.mem_append.mp member with early | late
    · exact wordChar_slug (plain char early)
    · exact wordChar_id _ _ _ char (List.mem_of_mem_take late)

/-- It is one plain name, and not the sidecar's. -/
theorem relpath_name (observed : Observed) :
    ∃ name : Name, observed.relpath = "evidence/" ++ name.text ∧ '_' ∉ name.text.toList := by
  obtain ⟨body, path, words⟩ := relpath_word observed
  obtain ⟨name, text, free⟩ := word_name words
  exact ⟨name, by rw [path, text], free⟩

theorem keyPath_relpath (fs : AgentFs) (observed : Observed) :
    ∃ name : Name, observed.relpath = "evidence/" ++ name.text ∧ '_' ∉ name.text.toList ∧
      keyPath (fs.key observed.relpath) = keyPath (fs.key "evidence") ++ [name] := by
  obtain ⟨name, text, free⟩ := relpath_name observed
  refine ⟨name, text, free, ?_⟩
  rw [text, show "evidence/" = "evidence" ++ "/" from rfl, String.append_assoc, key_append, ← String.append_assoc,
    keyPath_append, show keyPath name.text = [name] from keyPath_joinPath [name]]

theorem keyPath_evidenceTail (fs : AgentFs) :
    ∃ name : Name, name.text = "_tail.json" ∧
      keyPath (fs.key EVIDENCE_TAIL_SUFFIX) = keyPath (fs.key "evidence") ++ [name] := by
  refine ⟨⟨"_tail.json", by decide⟩, rfl, ?_⟩
  rw [show EVIDENCE_TAIL_SUFFIX = "evidence" ++ ("/" ++ "_tail.json") from rfl, key_append, ← String.append_assoc,
    keyPath_append]
  rfl

private theorem siblings_apart {above : List Name} {first second : Name} (other : first ≠ second) :
    ¬ above ++ [first] <+: above ++ [second] := by
  intro below
  rw [List.prefix_append_right_inj] at below
  have same := below.eq_of_length rfl
  cases same
  exact other rfl

/-- Neither of two evidence paths lies below the other, unless they are one. -/
theorem relpath_apart (fs : AgentFs) {first second : Observed} (other : first.relpath ≠ second.relpath) :
    ¬ keyPath (fs.key first.relpath) <+: keyPath (fs.key second.relpath) := by
  obtain ⟨name, text, -, path⟩ := keyPath_relpath fs first
  obtain ⟨name', text', -, path'⟩ := keyPath_relpath fs second
  rw [path, path']
  apply siblings_apart
  rintro rfl
  exact other (text.trans text'.symm)

theorem relpath_not_tail (fs : AgentFs) (observed : Observed) :
    ¬ keyPath (fs.key observed.relpath) <+: keyPath (fs.key EVIDENCE_TAIL_SUFFIX) := by
  obtain ⟨name, -, free, path⟩ := keyPath_relpath fs observed
  obtain ⟨sidecar, text, tail⟩ := keyPath_evidenceTail fs
  rw [path, tail]
  apply siblings_apart
  rintro rfl
  rw [text] at free
  revert free
  decide

end Names

section Runs

variable {σ : Type} [AgentStorage σ] [LawfulStorage σ] {fs : AgentFs} {storage : σ}

/-- Nothing is at any path that evidence may come to. -/
def Unrecorded (fs : AgentFs) (storage : σ) : Prop := ∀ observed : Observed, vacant storage (fs.key observed.relpath)

/-- The path holds the record of that observation, by its id. -/
def Kept (fs : AgentFs) (storage : σ) (path : String) (observed : Observed) : Prop :=
  ∃ record, viewAt storage (fs.key path) = some (.evidence record) ∧ record.id = observed.record.id

/-- Each path of the history holds a record of the history, and the others are free. -/
structure Recorded (fs : AgentFs) (history : List Observed) (storage : σ) : Prop where
  held : ∀ observed ∈ history, ∃ first ∈ history, first.relpath = observed.relpath ∧
    viewAt storage (fs.key observed.relpath) = some (.evidence first.record)
  free : ∀ observed : Observed, (∀ earlier ∈ history, earlier.relpath ≠ observed.relpath) →
    vacant storage (fs.key observed.relpath)

omit [LawfulStorage σ] in
/-- Wherever it stops, recording has left the store as it is, found the path taken, or put the
record there, and perhaps its name in the sidecar. -/
theorem recordEvidence_cases {now : DateTime} {record : EvidenceRecord} {slugSeed : String} {after : σ}
    {ended : Except FsError String} (recorded : fs.recordEvidence now record slugSeed storage = (ended, after)) :
    (∃ error, ended = .error error ∧ after = storage) ∨
      ended = .ok (evidenceRelpath slugSeed record.id) ∧ AgentStorage.putIfAbsent storage
        (fs.key (evidenceRelpath slugSeed record.id)) (.evidence record) = .ok (.existed, after) ∨
      ∃ middle, AgentStorage.putIfAbsent storage (fs.key (evidenceRelpath slugSeed record.id)) (.evidence record) =
          .ok (.created, middle) ∧
        ((∃ error, ended = .error error ∧ after = middle) ∨
          ended = .ok (evidenceRelpath slugSeed record.id) ∧
            fs.appendToTail EVIDENCE_TAIL_SUFFIX ((stripStart (evidenceRelpath slugSeed record.id) "evidence/").getD
              (evidenceRelpath slugSeed record.id)) now middle = .ok after) := by
  simp only [AgentFs.recordEvidence] at recorded
  generalize evidenceRelpath slugSeed record.id = relpath at recorded ⊢
  cases wrote : AgentStorage.putIfAbsent storage (fs.key relpath) (.evidence record) with
  | error source =>
    rw [wrote] at recorded
    cases recorded
    exact .inl ⟨_, rfl, rfl⟩
  | ok result =>
    obtain ⟨outcome, middle⟩ := result
    rw [wrote] at recorded
    cases outcome with
    | existed =>
      cases recorded
      exact .inr (.inl ⟨rfl, rfl⟩)
    | created =>
      simp only [AgentFs.stored] at recorded
      split at recorded
      · cases recorded
        exact .inr (.inr ⟨after, rfl, .inl ⟨_, rfl, rfl⟩⟩)
      · rename_i followed
        cases recorded
        exact .inr (.inr ⟨middle, rfl, .inr ⟨rfl, followed⟩⟩)

omit [LawfulStorage σ] in
theorem recordEvidence_ok {now : DateTime} {record : EvidenceRecord} {slugSeed path : String} {after : σ}
    (recorded : fs.recordEvidence now record slugSeed storage = (.ok path, after)) :
    path = evidenceRelpath slugSeed record.id ∧
      (AgentStorage.putIfAbsent storage (fs.key (evidenceRelpath slugSeed record.id)) (.evidence record) =
          .ok (.existed, after) ∨
        ∃ middle, AgentStorage.putIfAbsent storage (fs.key (evidenceRelpath slugSeed record.id)) (.evidence record) =
            .ok (.created, middle) ∧
          fs.appendToTail EVIDENCE_TAIL_SUFFIX ((stripStart (evidenceRelpath slugSeed record.id) "evidence/").getD
            (evidenceRelpath slugSeed record.id)) now middle = .ok after) := by
  rcases recordEvidence_cases recorded with ⟨error, failed, -⟩ | ⟨named, existed⟩ | ⟨middle, created, ended⟩
  · cases failed
  · exact ⟨Except.ok.inj named, .inl existed⟩
  · rcases ended with ⟨error, failed, -⟩ | ⟨named, followed⟩
    · cases failed
    · exact ⟨Except.ok.inj named, .inr ⟨middle, created, followed⟩⟩

omit [LawfulStorage σ] in
theorem appendToTail_put {suffix filename : String} {now : DateTime} {after : σ}
    (followed : fs.appendToTail suffix filename now storage = .ok after) :
    ∃ value, AgentStorage.put storage (fs.key suffix) value = .ok after := by
  unfold AgentFs.appendToTail at followed
  cases got : AgentFs.get storage (fs.key suffix) with
  | error error =>
    rw [got] at followed
    cases followed
  | ok found =>
    rw [got] at followed
    simp only [bind, Except.bind, AgentFs.put, AgentFs.stored] at followed
    split at followed
    · rename_i wrote
      cases followed
      exact ⟨_, wrote⟩
    · cases followed

omit [LawfulStorage σ] in
theorem recordings_step {observed : Observed} {state next : σ} {more : List String} :
    (recordings fs).step state observed = some (next, more) ↔
      more = [observed.relpath] ∧
        fs.recordEvidence observed.now observed.record observed.slugSeed state = (.ok observed.relpath, next) := by
  simp only [recordings]
  split
  · rename_i path after call
    obtain ⟨rfl, -⟩ := recordEvidence_ok call
    rw [call, Option.some.injEq, Prod.mk.injEq, Prod.mk.injEq]
    constructor
    · rintro ⟨rfl, rfl⟩
      exact ⟨rfl, rfl, rfl⟩
    · rintro ⟨rfl, -, rfl⟩
      exact ⟨rfl, rfl⟩
  · rename_i error after call
    rw [call]
    constructor
    · intro ended
      cases ended
    · rintro ⟨-, ended⟩
      cases ended

/-- What a call that returns its path has done. The path was taken, and nothing shows; or it
was free, and shows the record, and the sidecar the name. -/
inductive Entered (fs : AgentFs) (observed : Observed) (storage after : σ) : Prop where
  | known (taken : ¬ vacant storage (fs.key observed.relpath)) (same : ∀ key, viewAt after key = viewAt storage key)
  | new (absent : viewAt storage (fs.key observed.relpath) = none)
      (written : viewAt after (fs.key observed.relpath) = some (.evidence observed.record))
      (tailed : viewAt after (fs.key EVIDENCE_TAIL_SUFFIX) = some (.tail (appended
        (tailAt storage (fs.key EVIDENCE_TAIL_SUFFIX)) ((stripStart observed.relpath "evidence/").getD observed.relpath)
        observed.now)))
      (elsewhere : ∀ key, (place key : Place σ) ≠ place (fs.key observed.relpath) →
        (place key : Place σ) ≠ place (fs.key EVIDENCE_TAIL_SUFFIX) → viewAt after key = viewAt storage key)

theorem place_relpath (fs : AgentFs) {observed other : Observed} (apart : other.relpath ≠ observed.relpath) :
    (place (fs.key other.relpath) : Place σ) ≠ place (fs.key observed.relpath) := by
  intro same
  apply relpath_apart fs apart
  rw [path_of_place _ _ same]

theorem place_tail (fs : AgentFs) (observed : Observed) :
    (place (fs.key observed.relpath) : Place σ) ≠ place (fs.key EVIDENCE_TAIL_SUFFIX) := by
  intro same
  apply relpath_not_tail fs observed
  rw [path_of_place _ _ same]

/-- No other record is touched. -/
theorem Entered.other {observed other : Observed} {after : σ} (entered : Entered fs observed storage after)
    (apart : other.relpath ≠ observed.relpath) :
    viewAt after (fs.key other.relpath) = viewAt storage (fs.key other.relpath) := by
  cases entered with
  | known taken same => exact same _
  | new absent written tailed elsewhere => exact elsewhere _ (place_relpath fs apart) (place_tail fs other)

/-- A call that returns its path leaves the other paths as free as they were. -/
theorem recordings_entered {observed : Observed} {next : σ} {more : List String}
    (stepped : (recordings fs).step storage observed = some (next, more)) :
    Entered fs observed storage next ∧ ∀ other : Observed, other.relpath ≠ observed.relpath →
      vacant storage (fs.key other.relpath) → vacant next (fs.key other.relpath) := by
  obtain ⟨-, outcome⟩ := recordEvidence_ok (recordings_step.mp stepped).2
  change AgentStorage.putIfAbsent storage (fs.key observed.relpath) _ = _ ∨
    ∃ middle, AgentStorage.putIfAbsent storage (fs.key observed.relpath) _ = _ ∧ fs.appendToTail EVIDENCE_TAIL_SUFFIX
      ((stripStart observed.relpath "evidence/").getD observed.relpath) observed.now middle = _ at outcome
  rcases outcome with existed | ⟨middle, created, followed⟩
  · obtain ⟨taken, frees⟩ := putIfAbsent_vacant storage next _ _ _ existed
    refine ⟨.known (taken rfl) fun key => congrFun (putIfAbsent_existed storage next _ _ existed) _, ?_⟩
    exact fun other apart free => frees _ (relpath_apart fs apart) free
  · obtain ⟨absent, -, views⟩ := putIfAbsent_created storage middle _ _ created
    have sets : Sets storage middle (fs.key observed.relpath) (some (.evidence observed.record)) := views
    obtain ⟨-, frees⟩ := putIfAbsent_vacant storage middle _ _ _ created
    obtain ⟨-, tailed⟩ := appendToTail_ok followed
    obtain ⟨value, put⟩ := appendToTail_put followed
    have tail : tailAt middle (fs.key EVIDENCE_TAIL_SUFFIX) = tailAt storage (fs.key EVIDENCE_TAIL_SUFFIX) := by
      unfold tailAt viewAt
      rw [sets, if_neg (place_tail fs observed).symm]
    refine ⟨.new absent ?_ (tail ▸ tailed.at_key) ?_, ?_⟩
    · unfold viewAt
      rw [tailed, if_neg (place_tail fs observed), sets, if_pos rfl]
    · intro key here sidecar
      unfold viewAt
      rw [tailed, if_neg sidecar, sets, if_neg here]
    · intro other apart free
      exact put_vacant middle next _ _ put _ (relpath_not_tail fs other) (frees _ (relpath_apart fs apart) free)

section Recorded

variable {history : List Observed} {observed : Observed}

theorem Recorded.known (recorded : Recorded fs history storage) (taken : ¬ vacant storage (fs.key observed.relpath)) :
    ∃ earlier ∈ history, earlier.relpath = observed.relpath := by
  by_contra unknown
  exact taken (recorded.free observed fun earlier member same => unknown ⟨earlier, member, same⟩)

theorem Recorded.step {next : σ} {more : List String} (recorded : Recorded fs history storage)
    (stepped : (recordings fs).step storage observed = some (next, more)) :
    more = [observed.relpath] ∧ Recorded fs (history ++ [observed]) next := by
  obtain ⟨entered, frees⟩ := recordings_entered stepped
  refine ⟨(recordings_step.mp stepped).1, ?_, ?_⟩
  · intro other listed
    by_cases here : other.relpath = observed.relpath
    · rw [here]
      cases entered with
      | known taken same =>
        obtain ⟨earlier, member, path⟩ := recorded.known taken
        obtain ⟨first, among, shared, found⟩ := recorded.held earlier member
        refine ⟨first, List.mem_append_left _ among, shared.trans path, ?_⟩
        rw [same, ← path]
        exact found
      | new absent written tailed elsewhere => exact ⟨observed, by simp, rfl, written⟩
    · rcases List.mem_append.mp listed with old | new
      · obtain ⟨first, among, shared, found⟩ := recorded.held other old
        exact ⟨first, List.mem_append_left _ among, shared, (entered.other here).trans found⟩
      · exact (here (congrArg Observed.relpath (List.mem_singleton.mp new))).elim
  · intro other unknown
    apply frees other fun shared => unknown observed (by simp) shared.symm
    exact recorded.free other fun earlier member => unknown earlier (List.mem_append_left _ member)

end Recorded

theorem recorded_run {history : List Observed} {final : σ} {paths : List String} (unrecorded : Unrecorded fs storage)
    (ran : (recordings fs).run storage history = some (final, paths)) :
    paths = history.map Observed.relpath ∧ Recorded fs history final := by
  apply (recordings fs).history_invariant
    (fun history final paths => paths = history.map Observed.relpath ∧ Recorded fs history final) _ _ ran
  · refine ⟨rfl, ⟨?_, fun observed _ => unrecorded observed⟩⟩
    intro observed member
    cases member
  · intro history middle paths observed next more held stepped
    obtain ⟨same, recorded⟩ := held.2.step stepped
    refine ⟨?_, recorded⟩
    rw [held.1, same, List.map_append]
    rfl

private theorem mem_zip_map {α β : Type} {convert : α → β} {items : List α} {item : α} {image : β} :
    (image, item) ∈ (items.map convert).zip items ↔ item ∈ items ∧ image = convert item := by
  induction items with
  | nil => simp
  | cons first rest ih =>
    simp only [List.map_cons, List.zip_cons_cons, List.mem_cons, Prod.mk.injEq, ih]
    grind

theorem kept_of_run {final : σ} {history : List Observed} {paths : List String}
    (kept : ∀ before after middle found, history = before ++ after →
      (recordings fs).run storage before = some (middle, found) →
        ∀ path observed, (path, observed) ∈ found.zip before → Kept fs middle path observed)
    (ran : (recordings fs).run storage history = some (final, paths)) (listed : paths = history.map Observed.relpath) :
    Apart history := by
  have each : ∀ observed ∈ history, Kept fs final observed.relpath observed := by
    intro observed among
    apply kept history [] final paths (List.append_nil _).symm ran
    rw [listed]
    exact mem_zip_map.mpr ⟨among, rfl⟩
  intro first member second other same
  obtain ⟨record, found, id⟩ := each first member
  obtain ⟨record', found', id'⟩ := each second other
  rw [← same, found] at found'
  cases found'
  rw [← id, ← id']

/-- Every path keeps naming the observation it was returned for exactly when no two
different observations of the history come to one path. -/
theorem evidence_kept_iff {final : σ} {history : List Observed} {paths : List String} (unrecorded : Unrecorded fs storage)
    (ran : (recordings fs).run storage history = some (final, paths)) :
    (∀ before after middle found, history = before ++ after →
      (recordings fs).run storage before = some (middle, found) →
        ∀ path observed, (path, observed) ∈ found.zip before → Kept fs middle path observed) ↔ Apart history := by
  constructor
  · exact fun kept => kept_of_run kept ran (recorded_run unrecorded ran).1
  · intro apart before after middle found whole earlier path observed returned
    obtain ⟨listed, recorded⟩ := recorded_run unrecorded earlier
    rw [listed] at returned
    obtain ⟨member, same⟩ := mem_zip_map.mp returned
    rw [same]
    obtain ⟨first, among, shared, found⟩ := recorded.held observed member
    have within : ∀ {other : Observed}, other ∈ before → other ∈ history := by
      intro other listed
      rw [whole]
      exact List.mem_append_left _ listed
    exact ⟨first.record, found, apart first (within among) observed (within member) shared⟩

end Runs

theorem unrecorded_memory (fs : AgentFs) : Unrecorded fs (⟨∅⟩ : MemoryStorage) := fun _ => rfl

/-- What the tool answered, without a word from the model to name it by. -/
def answered (number : Nat) : Observed := ⟨"t", .object [], .number (.posInt number), ⟨0⟩, "", ⟨0⟩⟩

/-- No call meets a fault in memory. -/
theorem memory_recordings (fs : AgentFs) (storage : MemoryStorage) (history : List Observed) :
    ∃ final paths, (recordings fs).run storage history = some (final, paths) := by
  induction history generalizing storage with
  | nil => exact ⟨storage, [], rfl⟩
  | cons observed history ih =>
    have stepped : ∃ next more, (recordings fs).step storage observed = some (next, more) := by
      simp only [recordings, AgentFs.recordEvidence]
      generalize evidenceRelpath observed.slugSeed observed.record.id = relpath
      have outcome : ∀ value, (∃ after, AgentStorage.putIfAbsent storage (fs.key relpath) value = .ok (.existed, after)) ∨
          ∃ after, AgentStorage.putIfAbsent storage (fs.key relpath) value = .ok (.created, after) := by
        intro value
        change (∃ after, (if (storage.inner.lookup (fs.key relpath)).isSome then _ else _) = _) ∨ _
        split
        · exact .inl ⟨storage, rfl⟩
        · rename_i absent
          refine .inr ⟨_, if_neg absent⟩
      rcases outcome (.evidence observed.record) with ⟨after, existed⟩ | ⟨after, created⟩
      · rw [existed]
        exact ⟨after, [relpath], rfl⟩
      · rw [created]
        exact ⟨_, [relpath], rfl⟩
    obtain ⟨middle, first, stepped⟩ := stepped
    obtain ⟨final, rest, ran⟩ := ih middle
    exact ⟨final, first ++ rest, (recordings fs).run_cons.mpr ⟨middle, first, rest, stepped, ran, rfl⟩⟩

theorem evidence_kept_iff_two_answers :
    ∃ final paths, (recordings ⟨""⟩).run (⟨∅⟩ : MemoryStorage) [answered 1, answered 2] = some (final, paths) ∧
      ∀ path observed, (path, observed) ∈ paths.zip [answered 1, answered 2] → Kept ⟨""⟩ final path observed := by
  obtain ⟨final, paths, ran⟩ := memory_recordings ⟨""⟩ ⟨∅⟩ [answered 1, answered 2]
  have apart : Apart [answered 1, answered 2] := by decide +kernel
  exact ⟨final, paths, ran, (evidence_kept_iff (unrecorded_memory _) ran).mpr apart _ [] final paths rfl ran⟩

/-- The ids of these two answers both begin with 1af04683. -/
theorem second_answer_lost :
    ¬ ∀ (fs : AgentFs) (storage final : MemoryStorage) (history : List Observed) (paths : List String),
        Unrecorded fs storage → (recordings fs).run storage history = some (final, paths) →
        ∀ before after middle found, history = before ++ after →
          (recordings fs).run storage before = some (middle, found) →
            ∀ path observed, (path, observed) ∈ found.zip before → Kept fs middle path observed := by
  intro kept
  obtain ⟨final, paths, ran⟩ := memory_recordings ⟨""⟩ ⟨∅⟩ [answered 7005, answered 148197]
  have listed := (recorded_run (unrecorded_memory _) ran).1
  have apart := kept_of_run (kept _ _ final _ paths (unrecorded_memory _) ran) ran listed
  have first : (answered 7005).relpath = "evidence/1af04683.json" := by decide +kernel
  have second : (answered 148197).relpath = "evidence/1af04683.json" := by decide +kernel
  have other : (answered 7005).record.id ≠ (answered 148197).record.id := by decide +kernel
  exact other (apart _ (by simp) _ (by simp) (first.trans second.symm))

end Coral.Proofs

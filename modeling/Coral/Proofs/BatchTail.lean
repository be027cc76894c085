import Coral.Proofs.EvidenceWindow
import Coral.Temporal.ToolBatch

/-! The tool calls of one batch, run at the same time. An entry of the tail is lost where one
activity overwrites what another has written since it read. -/

namespace Coral.Temporal.Proofs
open Coral.Library Coral.Proofs LawfulStorage

section Alone

variable {σ : Type} [AgentStorage σ] {fs : AgentFs} {record : EvidenceRecord} {slugSeed : String} {clock : Clock}

/-- By itself an activity reconciles a directory as `reconcile_tail` does. -/
private theorem alone_reconcile (bucket : Bucket) (since writes : Nat) (storage : σ) :
    match AgentFs.settle storage
      (fs.reconcileTail bucket.suffix bucket.indexed bucket.isRecord (bucket.reading clock) storage) with
    | (.error error, after) => ∃ since' writes', (toolBatch fs).Alone
        (⟨record, slugSeed, clock, .list bucket, since⟩, ⟨storage, writes⟩)
        (⟨record, slugSeed, clock, openFailed error, since'⟩, ⟨after, writes'⟩)
    | (.ok (), after) => ∃ since' writes', (toolBatch fs).Alone
        (⟨record, slugSeed, clock, .list bucket, since⟩, ⟨storage, writes⟩)
        (⟨record, slugSeed, clock, bucket.next, since'⟩, ⟨after, writes'⟩) := by
  unfold AgentFs.reconcileTail
  cases listed : AgentFs.listAll storage (fs.key bucket.indexed) with
  | error error =>
    refine ⟨since, writes, .step ?_ (.refl _)⟩
    simp only [toolBatch, recordingStep, listed]
  | ok keys =>
    simp only [bind, Except.bind]
    by_cases empty : ((keys.filterMap fun key => stripStart key (fs.key bucket.indexed)).filter bucket.isRecord).isEmpty = true
    · rw [if_pos empty]
      refine ⟨since, writes, .step ?_ (.refl _)⟩
      simp only [toolBatch, recordingStep, listed, if_pos empty]
    · rw [if_neg empty]
      have listing : recordingStep fs ⟨record, slugSeed, clock, .list bucket, since⟩ ⟨storage, writes⟩ =
          some (⟨record, slugSeed, clock, .compare bucket
            (((keys.filterMap fun key => stripStart key (fs.key bucket.indexed)).filter bucket.isRecord).insertionSort
              fun first second : String => first.toList ≤ second.toList), writes⟩, ⟨storage, writes⟩) := by
        simp only [recordingStep, listed, if_neg empty]
      generalize ((keys.filterMap fun key => stripStart key (fs.key bucket.indexed)).filter bucket.isRecord).insertionSort
        (fun first second : String => first.toList ≤ second.toList) = sorted at listing ⊢
      cases read : AgentFs.get storage (fs.key bucket.suffix) with
      | error error =>
        refine ⟨writes, writes, .step listing (.step ?_ (.refl _))⟩
        simp only [toolBatch, recordingStep, read]
      | ok found =>
        simp only
        by_cases covered : (sorted.all fun filename =>
            ((found.bind Content.asTail).getD {}).entries.any (·.filename == filename)) = true
        · rw [if_pos covered]
          refine ⟨writes, writes, .step listing (.step ?_ (.refl _))⟩
          simp only [toolBatch, recordingStep, read, if_pos covered]
        · rw [if_neg covered]
          have comparing : recordingStep fs ⟨record, slugSeed, clock, .compare bucket sorted, writes⟩ ⟨storage, writes⟩ =
              some (⟨record, slugSeed, clock, .rebuild bucket (rebuiltTail sorted ((found.bind Content.asTail).getD {})
                (bucket.reading clock)), writes⟩, ⟨storage, writes⟩) := by
            simp only [recordingStep, read, if_neg covered]
          change match AgentFs.settle storage (AgentFs.put storage (fs.key bucket.suffix)
            (.tail (rebuiltTail sorted ((found.bind Content.asTail).getD {}) (bucket.reading clock)))) with
            | (.error error, after) => _ | (.ok (), after) => _
          generalize rebuiltTail sorted ((found.bind Content.asTail).getD {}) (bucket.reading clock) = tail at comparing ⊢
          cases wrote : AgentFs.put storage (fs.key bucket.suffix) (.tail tail) with
          | error error =>
            refine ⟨writes, writes, .step listing (.step comparing (.step ?_ (.refl _)))⟩
            simp only [toolBatch, recordingStep, wrote]
          | ok after =>
            refine ⟨writes, if bucket = .evidence then writes + 1 else writes, .step listing (.step comparing (.step ?_ (.refl _)))⟩
            simp only [toolBatch, recordingStep, wrote]

/-- By itself an activity opens the files as `new_with_storage` does. -/
private theorem alone_open (raw : String) (storage : σ) :
    match AgentFs.openWithStorage raw placeholderMandate (fun reading => clock (reading + 1)) storage with
    | (.error error, after) => ∃ since writes, (toolBatch (.attach raw)).Alone
        (⟨record, slugSeed, clock, .readMandate, 0⟩, ⟨storage, 0⟩)
        (⟨record, slugSeed, clock, openFailed error, since⟩, ⟨after, writes⟩)
    | (.ok fs, after) => fs = .attach raw ∧ ∃ since writes, (toolBatch (.attach raw)).Alone
        (⟨record, slugSeed, clock, .readMandate, 0⟩, ⟨storage, 0⟩)
        (⟨record, slugSeed, clock, .record, since⟩, ⟨after, writes⟩) := by
  unfold AgentFs.openWithStorage
  simp only
  generalize AgentFs.attach raw = fs
  cases read : AgentFs.get storage (fs.key "mandate.md") with
  | error error =>
    refine ⟨0, 0, .step ?_ (.refl _)⟩
    simp only [toolBatch, recordingStep, read]
  | ok existing =>
    simp only
    have opening : match AgentFs.settle storage (if existing.isNone = true then
          AgentFs.put storage (fs.key "mandate.md") (.text placeholderMandate.text) else .ok storage) with
        | (.error error, after) => (toolBatch fs).Alone (⟨record, slugSeed, clock, .readMandate, 0⟩, ⟨storage, 0⟩)
            (⟨record, slugSeed, clock, openFailed error, 0⟩, ⟨after, 0⟩)
        | (.ok (), after) => (toolBatch fs).Alone (⟨record, slugSeed, clock, .readMandate, 0⟩, ⟨storage, 0⟩)
            (⟨record, slugSeed, clock, .list .evidence, 0⟩, ⟨after, 0⟩) := by
      by_cases absent : existing.isNone = true
      · have reading : recordingStep fs ⟨record, slugSeed, clock, .readMandate, 0⟩ ⟨storage, 0⟩ =
            some (⟨record, slugSeed, clock, .writeMandate, 0⟩, ⟨storage, 0⟩) := by
          simp only [recordingStep, read, if_pos absent]
        rw [if_pos absent]
        cases wrote : AgentFs.put storage (fs.key "mandate.md") (.text placeholderMandate.text) with
        | error error =>
          refine .step reading (.step ?_ (.refl _))
          simp only [toolBatch, recordingStep, wrote]
        | ok after =>
          refine .step reading (.step ?_ (.refl _))
          simp only [toolBatch, recordingStep, wrote]
      · rw [if_neg absent]
        refine .step ?_ (.refl _)
        simp only [toolBatch, recordingStep, read, if_neg absent]
    generalize AgentFs.settle storage (if existing.isNone = true then
      AgentFs.put storage (fs.key "mandate.md") (.text placeholderMandate.text) else .ok storage) = mandated at opening ⊢
    obtain ⟨_ | ⟨⟩, mandated⟩ := mandated
    · exact ⟨0, 0, opening⟩
    · have evidence := @alone_reconcile σ _ fs record slugSeed clock .evidence 0 0 mandated
      simp only [Bucket.suffix, Bucket.indexed, Bucket.isRecord, Bucket.reading] at evidence
      simp only
      generalize AgentFs.settle mandated (fs.reconcileTail EVIDENCE_TAIL_SUFFIX "evidence/" isJsonRecord (clock (0 + 1)) mandated) =
        indexed at evidence ⊢
      obtain ⟨_ | ⟨⟩, indexed⟩ := indexed
      · obtain ⟨since, writes, reached⟩ := evidence
        exact ⟨since, writes, opening.trans reached⟩
      · obtain ⟨since, writes, reached⟩ := evidence
        have notes := @alone_reconcile σ _ fs record slugSeed clock .notes since writes indexed
        simp only [Bucket.suffix, Bucket.indexed, Bucket.isRecord, Bucket.reading] at notes
        simp only
        generalize AgentFs.settle indexed (fs.reconcileTail NOTES_TAIL_SUFFIX "notes/" isNoteRecord (clock (1 + 1)) indexed) =
          opened at notes ⊢
        obtain ⟨_ | ⟨⟩, opened⟩ := opened
        · obtain ⟨since', writes', ended⟩ := notes
          exact ⟨since', writes', opening.trans (reached.trans ended)⟩
        · obtain ⟨since', writes', ended⟩ := notes
          exact ⟨rfl, since', writes', opening.trans (reached.trans ended)⟩

/-- By itself an activity of the batch is `execute_tool`, once the tool has answered. -/
theorem alone_executeTool {fsHandle : FsHandle} {registry : Except String ToolRegistry} {allowedTools : List String}
    {call : ToolCall} (answered : dispatchTool registry allowedTools call (clock 0) = .ok record) (storage : σ) :
    ∃ since writes, (toolBatch (.attach fsHandle.storagePrefix)).Alone
      (⟨record, call.claimSeed, clock, .readMandate, 0⟩, ⟨storage, 0⟩)
      (⟨record, call.claimSeed, clock, .ended (executeTool fsHandle registry allowedTools call clock storage).1, since⟩,
        ⟨(executeTool fsHandle registry allowedTools call clock storage).2, writes⟩) := by
  unfold executeTool
  rw [answered]
  simp only
  have opening := @alone_open σ _ record call.claimSeed clock fsHandle.storagePrefix storage
  generalize AgentFs.openWithStorage fsHandle.storagePrefix placeholderMandate (fun reading => clock (reading + 1)) storage =
    opened at opening ⊢
  obtain ⟨error | fs, opened⟩ := opened
  · exact opening
  · obtain ⟨rfl, since, writes, reached⟩ := opening
    generalize AgentFs.attach fsHandle.storagePrefix = fs at reached ⊢
    simp only [AgentFs.recordEvidence]
    cases wrote : AgentFs.stored (fs.key (evidenceRelpath call.claimSeed record.id))
        (AgentStorage.putIfAbsent opened (fs.key (evidenceRelpath call.claimSeed record.id)) (.evidence record)) with
    | error error =>
      refine ⟨since, writes, reached.trans (.step ?_ (.refl _))⟩
      simp only [toolBatch, recordingStep, Recording.relpath, wrote]
      rfl
    | ok result =>
      obtain ⟨outcome, after⟩ := result
      cases outcome with
      | existed =>
        refine ⟨since, writes, reached.trans (.step ?_ (.refl _))⟩
        simp only [toolBatch, recordingStep, Recording.relpath, wrote]
      | created =>
        have creating : recordingStep fs ⟨record, call.claimSeed, clock, .record, since⟩ ⟨opened, writes⟩ =
            some (⟨record, call.claimSeed, clock, .readTail, since⟩, ⟨after, writes⟩) := by
          simp only [recordingStep, Recording.relpath, wrote]
        simp only [AgentFs.appendToTail]
        cases read : AgentFs.get after (fs.key EVIDENCE_TAIL_SUFFIX) with
        | error error =>
          refine ⟨since, writes, reached.trans (.step creating (.step ?_ (.refl _)))⟩
          simp only [toolBatch, recordingStep, read]
          rfl
        | ok found =>
          simp only [bind, Except.bind]
          have reading : recordingStep fs ⟨record, call.claimSeed, clock, .readTail, since⟩ ⟨after, writes⟩ =
              some (⟨record, call.claimSeed, clock, .append (appended ((found.bind Content.asTail).getD {})
                ((stripStart (evidenceRelpath call.claimSeed record.id) "evidence/").getD
                  (evidenceRelpath call.claimSeed record.id)) (clock 3)), writes⟩, ⟨after, writes⟩) := by
            simp only [recordingStep, read]
            rfl
          unfold appended at reading
          generalize (⟨((stripStart (evidenceRelpath call.claimSeed record.id) "evidence/").getD
            (evidenceRelpath call.claimSeed record.id)), clock 3⟩ ::
              ((found.bind Content.asTail).getD {}).entries.filter (·.filename !=
                ((stripStart (evidenceRelpath call.claimSeed record.id) "evidence/").getD
                  (evidenceRelpath call.claimSeed record.id))) : List TailEntry) = entries at reading ⊢
          cases written : AgentFs.put after (fs.key EVIDENCE_TAIL_SUFFIX) (.tail ⟨entries.take TAIL_K⟩) with
          | error error =>
            refine ⟨writes, writes, reached.trans (.step creating (.step reading (.step ?_ (.refl _))))⟩
            simp only [toolBatch, recordingStep, written]
            rfl
          | ok final =>
            refine ⟨writes, writes + 1, reached.trans (.step creating (.step reading (.step ?_ (.refl _))))⟩
            simp only [toolBatch, recordingStep, written]
            rfl

end Alone

section Knowledge

variable {σ : Type} [AgentStorage σ] [LawfulStorage σ]

/-- A record is in the directory under the name. -/
def Filed (fs : AgentFs) (storage : σ) (name : String) : Prop :=
  ∃ (observed : Coral.Proofs.Observed) (record : EvidenceRecord), observed.filename = name ∧
    viewAt storage (fs.key observed.relpath) = some (.evidence record)

/-- The directory has records and the tail, and the tail names each of some of them once. -/
structure Tidy (fs : AgentFs) (storage : σ) : Prop where
  alone : ∀ key, keyPath (fs.key "evidence") <+: keyPath key → viewAt storage key ≠ none →
    (place key : Place σ) = place (fs.key EVIDENCE_TAIL_SUFFIX) ∨ ∃ observed : Coral.Proofs.Observed,
      Filed fs storage observed.filename ∧ (place key : Place σ) = place (fs.key observed.relpath)
  free : ∀ observed : Coral.Proofs.Observed, ¬ Filed fs storage observed.filename → vacant storage (fs.key observed.relpath)
  distinct : (evidenceDir.tracked fs storage).Nodup
  filed : ∀ name ∈ evidenceDir.tracked fs storage, Filed fs storage name

/-- The names that an update goes by. Unless the tail has been written since it began, they
are all that the tail has. -/
structure Gathered (fs : AgentFs) (shared : Contended σ) (since : Nat) (names : List String) : Prop where
  distinct : names.Nodup
  filed : ∀ name ∈ names, Filed fs shared.storage name
  covers : shared.tailWrites = since → ∀ name ∈ evidenceDir.tracked fs shared.storage, name ∈ names

/-- What an activity may rely on at its stage. -/
def Relies (fs : AgentFs) (activity : Recording) (shared : Contended σ) : Prop :=
  let mine := Filed fs shared.storage activity.filename
  match activity.stage with
  | .readMandate | .writeMandate | .list .evidence => True
  | .compare .evidence onDisk => Gathered fs shared activity.since onDisk ∧ (mine → activity.filename ∈ onDisk)
  | .rebuild .evidence tail =>
    Gathered fs shared activity.since (tail.entries.map (·.filename)) ∧
      (mine → activity.filename ∈ tail.entries.map (·.filename))
  | .list .notes | .compare .notes _ | .rebuild .notes _ | .record =>
    mine → activity.filename ∈ evidenceDir.tracked fs shared.storage
  | .readTail => mine
  | .append tail =>
    Gathered fs shared activity.since (tail.entries.map (·.filename)) ∧
      activity.filename ∈ tail.entries.map (·.filename)
  | .ended (.ok (.success path)) =>
    path = activity.relpath ∧ mine ∧ activity.filename ∈ evidenceDir.tracked fs shared.storage
  | .ended _ => True

structure Knows (fs : AgentFs) (activity : Recording) (shared : Contended σ) : Prop where
  genuine : ∃ observed : Coral.Proofs.Observed, activity.relpath = observed.relpath ∧ activity.record = observed.record
  begun : activity.since ≤ shared.tailWrites
  relies : Relies fs activity shared

/-- What a step of the activity that writes this name leaves to the others. -/
structure Leaves (fs : AgentFs) (mine : String) (before after : Contended σ) : Prop where
  grows : ∀ name, Filed fs before.storage name → Filed fs after.storage name
  only : ∀ name, name ≠ mine → Filed fs after.storage name → Filed fs before.storage name
  tail : (evidenceDir.tracked fs after.storage = evidenceDir.tracked fs before.storage ∧
      after.tailWrites = before.tailWrites) ∨
    ((∀ name ∈ evidenceDir.tracked fs before.storage, name ∈ evidenceDir.tracked fs after.storage) ∧
      before.tailWrites < after.tailWrites)

variable {fs : AgentFs} {mine : String} {before after : Contended σ}

theorem Leaves.tracked (effect : Leaves fs mine before after) {name : String}
    (member : name ∈ evidenceDir.tracked fs before.storage) : name ∈ evidenceDir.tracked fs after.storage := by
  rcases effect.tail with ⟨same, -⟩ | ⟨covers, -⟩
  · rw [same]
    exact member
  · exact covers name member

theorem Leaves.writes (effect : Leaves fs mine before after) : before.tailWrites ≤ after.tailWrites := by
  rcases effect.tail with ⟨-, same⟩ | ⟨-, more⟩
  · exact same.ge
  · exact more.le

theorem Gathered.stable {since : Nat} {names : List String} (gathered : Gathered fs before since names)
    (begun : since ≤ before.tailWrites) (effect : Leaves fs mine before after) : Gathered fs after since names where
  distinct := gathered.distinct
  filed name member := effect.grows name (gathered.filed name member)
  covers fresh name member := by
    rcases effect.tail with ⟨same, writes⟩ | ⟨-, more⟩
    · rw [same] at member
      exact gathered.covers (by omega) name member
    · omega

/-- The step of one activity takes nothing from what another knows. -/
theorem Knows.stable {activity : Recording} (knows : Knows fs activity before) (effect : Leaves fs mine before after)
    (other : activity.filename ≠ mine) : Knows fs activity after := by
  refine ⟨knows.genuine, knows.begun.trans effect.writes, ?_⟩
  have relies := knows.relies
  have back := effect.only activity.filename other
  have forth := effect.grows activity.filename
  obtain ⟨record, slugSeed, clock, stage, since⟩ := activity
  unfold Relies at relies ⊢
  cases stage with
  | readMandate => trivial
  | writeMandate => trivial
  | list bucket =>
    cases bucket with
    | evidence => trivial
    | notes => exact fun filed => effect.tracked (relies (back filed))
  | compare bucket onDisk =>
    cases bucket with
    | evidence => exact ⟨relies.1.stable knows.begun effect, fun filed => relies.2 (back filed)⟩
    | notes => exact fun filed => effect.tracked (relies (back filed))
  | rebuild bucket tail =>
    cases bucket with
    | evidence => exact ⟨relies.1.stable knows.begun effect, fun filed => relies.2 (back filed)⟩
    | notes => exact fun filed => effect.tracked (relies (back filed))
  | record => exact fun filed => effect.tracked (relies (back filed))
  | readTail => exact forth relies
  | append tail => exact ⟨relies.1.stable knows.begun effect, relies.2⟩
  | ended result =>
    match result with
    | .ok (.success _) => exact ⟨relies.1, forth relies.2.1, effect.tracked relies.2.2⟩
    | .ok (.failure _) | .error _ => trivial

end Knowledge

section Writes

variable {σ : Type} [AgentStorage σ] [LawfulStorage σ] {fs : AgentFs} {storage after : σ}

private theorem tracked_of_view {first second : σ}
    (same : viewAt second (fs.key EVIDENCE_TAIL_SUFFIX) = viewAt first (fs.key EVIDENCE_TAIL_SUFFIX)) :
    evidenceDir.tracked fs second = evidenceDir.tracked fs first := by
  unfold Tailed.tracked tailAt
  rw [show evidenceDir.suffix = EVIDENCE_TAIL_SUFFIX from rfl, same]

private theorem sidecar_apart (fs : AgentFs) (observed : Coral.Proofs.Observed) :
    keyPath (fs.key observed.relpath) ≠ keyPath (fs.key EVIDENCE_TAIL_SUFFIX) := by
  intro same
  apply relpath_not_tail fs observed
  rw [same]

private theorem relpath_below (fs : AgentFs) (observed : Coral.Proofs.Observed) :
    keyPath (fs.key "evidence") <+: keyPath (fs.key observed.relpath) := by
  obtain ⟨name, -, -, path⟩ := keyPath_relpath fs observed
  rw [path]
  exact List.prefix_append _ _

private theorem sidecar_below (fs : AgentFs) : keyPath (fs.key "evidence") <+: keyPath (fs.key EVIDENCE_TAIL_SUFFIX) := by
  obtain ⟨name, -, path⟩ := keyPath_evidenceTail fs
  rw [path]
  exact List.prefix_append _ _

/-- A write to the tail leaves the records as they are. -/
private theorem filed_tailed {value : Content} (sets : Sets storage after (fs.key EVIDENCE_TAIL_SUFFIX) (some value))
    (name : String) : Filed fs after name ↔ Filed fs storage name := by
  unfold Filed
  simp only [sets.apart (sidecar_apart fs _)]

/-- A write to the tail replaces what it names. -/
theorem Tidy.tailed (tidy : Tidy fs storage) {tail : TailObject} (distinct : (tail.entries.map (·.filename)).Nodup)
    (filed : ∀ name ∈ tail.entries.map (·.filename), Filed fs storage name)
    (written : AgentFs.put storage (fs.key EVIDENCE_TAIL_SUFFIX) (.tail tail) = .ok after) :
    Tidy fs after ∧ evidenceDir.tracked fs after = tail.entries.map (·.filename) ∧
      ∀ name, Filed fs after name ↔ Filed fs storage name := by
  have sets := (put_spec written).2
  have same := filed_tailed sets
  have tracked : evidenceDir.tracked fs after = tail.entries.map (·.filename) := by
    unfold Tailed.tracked tailAt
    rw [show evidenceDir.suffix = EVIDENCE_TAIL_SUFFIX from rfl, sets.at_key]
    rfl
  refine ⟨⟨?_, ?_, tracked ▸ distinct, ?_⟩, tracked, same⟩
  · intro key below there
    by_cases here : (place key : Place σ) = place (fs.key EVIDENCE_TAIL_SUFFIX)
    · exact .inl here
    · right
      have old : viewAt after key = viewAt storage key := by
        unfold viewAt
        rw [sets, if_neg here]
      rcases tidy.alone key below (old ▸ there) with sidecar | ⟨observed, known, found⟩
      · exact (here sidecar).elim
      · exact ⟨observed, (same _).mpr known, found⟩
  · intro observed unfiled
    apply put_vacant storage after _ _ (raw_ok written) _ (relpath_not_tail fs observed)
    exact tidy.free observed fun known => unfiled ((same _).mpr known)
  · intro name member
    rw [tracked] at member
    exact (same name).mpr (filed name member)

/-- A key of the agent that is not in its evidence. -/
def Elsewhere (fs : AgentFs) (key : String) : Prop :=
  ¬ keyPath (fs.key "evidence") <+: keyPath key ∧ ¬ keyPath key <+: keyPath (fs.key "evidence")

/-- A write elsewhere changes nothing here. -/
theorem Tidy.beside (tidy : Tidy fs storage) {key : String} {value : Content} (elsewhere : Elsewhere fs key)
    (written : AgentFs.put storage key value = .ok after) :
    Tidy fs after ∧ evidenceDir.tracked fs after = evidenceDir.tracked fs storage ∧
      ∀ name, Filed fs after name ↔ Filed fs storage name := by
  have sets := (put_spec written).2
  have views : ∀ other, keyPath (fs.key "evidence") <+: keyPath other → viewAt after other = viewAt storage other := by
    intro other below
    apply sets.apart
    intro same
    exact elsewhere.1 (same ▸ below)
  have same : ∀ name, Filed fs after name ↔ Filed fs storage name := by
    intro name
    unfold Filed
    simp only [views _ (relpath_below fs _)]
  have tracked := tracked_of_view (views _ (sidecar_below fs))
  refine ⟨⟨?_, ?_, tracked ▸ tidy.distinct, ?_⟩, tracked, same⟩
  · intro other below there
    rcases tidy.alone other below (views other below ▸ there) with sidecar | ⟨observed, known, found⟩
    · exact .inl sidecar
    · exact .inr ⟨observed, (same _).mpr known, found⟩
  · intro observed unfiled
    apply put_vacant storage after _ _ (raw_ok written)
    · intro above
      exact elsewhere.1 ((relpath_below fs observed).trans above)
    · exact tidy.free observed fun known => unfiled ((same _).mpr known)
  · intro name member
    rw [tracked] at member
    exact (same name).mpr (tidy.filed name member)

/-- A record that is created is filed, and nothing else changes. -/
theorem Tidy.created (tidy : Tidy fs storage) (observed : Coral.Proofs.Observed)
    (created : AgentStorage.putIfAbsent storage (fs.key observed.relpath) (.evidence observed.record) = .ok (.created, after)) :
    Tidy fs after ∧ evidenceDir.tracked fs after = evidenceDir.tracked fs storage ∧ Filed fs after observed.filename ∧
      ∀ name, name ≠ observed.filename → (Filed fs after name ↔ Filed fs storage name) := by
  obtain ⟨absent, -, seen⟩ := putIfAbsent_created storage after _ _ created
  have sets : Sets storage after (fs.key observed.relpath) (some (.evidence observed.record)) := seen
  have tracked : evidenceDir.tracked fs after = evidenceDir.tracked fs storage :=
    tracked_of_view (sets.apart (sidecar_apart fs observed).symm)
  have others : ∀ other : Coral.Proofs.Observed, other.relpath ≠ observed.relpath →
      viewAt after (fs.key other.relpath) = viewAt storage (fs.key other.relpath) := by
    intro other elsewhere
    apply sets.apart
    intro same
    apply relpath_apart fs elsewhere
    rw [same]
  have mine : Filed fs after observed.filename := ⟨observed, observed.record, rfl, sets.at_key⟩
  have same : ∀ name, name ≠ observed.filename → (Filed fs after name ↔ Filed fs storage name) := by
    intro name other
    unfold Filed
    constructor
    · intro ⟨there, record, named, found⟩
      refine ⟨there, record, named, ?_⟩
      rw [← others there fun same => other ?_]
      · exact found
      · rw [← named, Coral.Proofs.Observed.filename, same, Coral.Proofs.Observed.filename]
    · intro ⟨there, record, named, found⟩
      refine ⟨there, record, named, ?_⟩
      rw [others there fun same => other ?_]
      · exact found
      · rw [← named, Coral.Proofs.Observed.filename, same, Coral.Proofs.Observed.filename]
  have grows : ∀ name, Filed fs storage name → Filed fs after name := by
    intro name known
    by_cases here : name = observed.filename
    · rw [here]
      exact mine
    · exact (same name here).mpr known
  refine ⟨⟨?_, ?_, tracked ▸ tidy.distinct, ?_⟩, tracked, mine, same⟩
  · intro key below there
    by_cases here : (place key : Place σ) = place (fs.key observed.relpath)
    · exact .inr ⟨observed, mine, here⟩
    · have old : viewAt after key = viewAt storage key := by
        unfold viewAt
        rw [sets, if_neg here]
      rcases tidy.alone key below (old ▸ there) with sidecar | ⟨other, known, found⟩
      · exact .inl sidecar
      · exact .inr ⟨other, grows _ known, found⟩
  · intro other unfiled
    obtain ⟨-, frees⟩ := putIfAbsent_vacant storage after _ _ _ created
    apply frees
    · apply relpath_apart fs
      intro same
      apply unfiled
      rw [Coral.Proofs.Observed.filename, same]
      exact mine
    · exact tidy.free other fun known => unfiled (grows _ known)
  · intro name member
    rw [tracked] at member
    exact grows name (tidy.filed name member)

/-- A record that was there already stays as it is. -/
theorem Tidy.existed (tidy : Tidy fs storage) (observed : Coral.Proofs.Observed) {value : Content}
    (existed : AgentStorage.putIfAbsent storage (fs.key observed.relpath) value = .ok (.existed, after)) :
    Tidy fs after ∧ evidenceDir.tracked fs after = evidenceDir.tracked fs storage ∧ Filed fs storage observed.filename ∧
      ∀ name, Filed fs after name ↔ Filed fs storage name := by
  have same := putIfAbsent_existed storage after _ _ existed
  obtain ⟨taken, frees⟩ := putIfAbsent_vacant storage after _ _ _ existed
  have views : ∀ key, viewAt after key = viewAt storage key := fun key => congrFun same _
  have mine : Filed fs storage observed.filename := by
    by_contra unfiled
    exact taken rfl (tidy.free observed unfiled)
  have filed : ∀ name, Filed fs after name ↔ Filed fs storage name := by
    intro name
    unfold Filed
    simp only [views]
  have tracked := tracked_of_view (views (fs.key EVIDENCE_TAIL_SUFFIX))
  refine ⟨⟨?_, ?_, tracked ▸ tidy.distinct, ?_⟩, tracked, mine, filed⟩
  · intro key below there
    rcases tidy.alone key below (views key ▸ there) with sidecar | ⟨other, known, found⟩
    · exact .inl sidecar
    · exact .inr ⟨other, (filed _).mpr known, found⟩
  · intro other unfiled
    have elsewhere : other.relpath ≠ observed.relpath := by
      intro alike
      apply unfiled
      rw [Coral.Proofs.Observed.filename, alike]
      exact (filed _).mpr mine
    exact frees _ (relpath_apart fs elsewhere) (tidy.free other fun known => unfiled ((filed _).mpr known))
  · intro name member
    rw [tracked] at member
    exact (filed name).mpr (tidy.filed name member)

end Writes

section Steps

variable {σ : Type} [AgentStorage σ] [LawfulStorage σ] {fs : AgentFs}

theorem Leaves.same {mine : String} {before after : Contended σ}
    (tracked : evidenceDir.tracked fs after.storage = evidenceDir.tracked fs before.storage)
    (writes : after.tailWrites = before.tailWrites)
    (filed : ∀ name, Filed fs after.storage name ↔ Filed fs before.storage name) : Leaves fs mine before after :=
  ⟨fun name => (filed name).mpr, fun name _ => (filed name).mp, .inl ⟨tracked, writes⟩⟩

/-- Fewer files of evidence than the tail has room for. -/
def Few (fs : AgentFs) (storage : σ) : Prop :=
  ∃ names : List String, names.length < TAIL_K ∧ ∀ name, Filed fs storage name → name ∈ names

theorem Few.length {storage : σ} (few : Few fs storage) {names : List String} (distinct : names.Nodup)
    (filed : ∀ name ∈ names, Filed fs storage name) : names.length < TAIL_K := by
  obtain ⟨all, short, within⟩ := few
  have fewer := (List.subperm_of_subset distinct fun name member => within name (filed name member)).length_le
  omega

variable [PlainListing σ]

/-- The names that a listing comes to are those of the records. -/
theorem Tidy.onDisk {storage : σ} (tidy : Tidy fs storage) (few : Few fs storage)
    (located : ∀ observed : Coral.Proofs.Observed, Shown σ (fs.key "evidence/") (fs.key observed.relpath)) {keys : List String}
    (listed : AgentFs.listAll storage (fs.key "evidence/") = .ok keys) :
    (evidenceDir.names fs keys).Nodup ∧ ∀ name, name ∈ evidenceDir.names fs keys ↔ Filed fs storage name := by
  obtain ⟨page, found, rfl⟩ := listAll_page listed
  have only := listed_only tidy.alone found
  have stripped : ∀ observed : Coral.Proofs.Observed, stripStart (fs.key observed.relpath) (fs.key "evidence/") = some observed.filename := by
    intro observed
    rw [relpath_eq, key_append, stripStart_append]
  have record : ∀ observed : Coral.Proofs.Observed, isJsonRecord observed.filename = true := by
    intro observed
    obtain ⟨name, named, -, free⟩ := filename_name observed
    have ending : endsWithText observed.filename ".json" = true := by
      obtain ⟨body, path, -⟩ := relpath_word observed
      rw [relpath_eq] at path
      rw [(String.append_right_inj _).mp path]
      exact endsWithText_append _ _
    unfold isJsonRecord
    rw [ending, Bool.true_and, bne_iff_ne, named]
    intro same
    rw [same] at free
    revert free
    decide
  have listed_filed : ∀ name ∈ evidenceDir.names fs page.keys, Filed fs storage name := by
    intro name member
    obtain ⟨among, json⟩ := List.mem_filter.mp member
    obtain ⟨key, there, strip⟩ := List.mem_filterMap.mp among
    rcases only key there with rfl | ⟨observed, filed, rfl⟩
    · have tail : stripStart (fs.key EVIDENCE_TAIL_SUFFIX) (fs.key "evidence/") = some "_tail.json" := by
        rw [show EVIDENCE_TAIL_SUFFIX = "evidence/" ++ "_tail.json" from rfl, key_append, stripStart_append]
      obtain rfl := Option.some.inj (tail.symm.trans strip)
      exact absurd json (by decide)
    · obtain rfl := Option.some.inj ((stripped observed).symm.trans strip)
      exact filed
  refine ⟨nodup_names (nodup_listAll listed), fun name => ⟨listed_filed name, ?_⟩⟩
  intro ⟨observed, content, named, there⟩
  have fits : page.keys.length < usizeMax := by
    obtain ⟨names, short, within⟩ := few
    have subset : page.keys ⊆ fs.key EVIDENCE_TAIL_SUFFIX :: names.map fun name => fs.key ("evidence/" ++ name) := by
      intro key member
      rcases only key member with sidecar | ⟨other, filed, same⟩
      · exact List.mem_cons.mpr (.inl sidecar)
      · refine List.mem_cons_of_mem _ (List.mem_map.mpr ⟨other.filename, within _ filed, ?_⟩)
        rw [same, ← relpath_eq]
    have fewer := (List.subperm_of_subset (list_nodup storage _ _ _ page found) subset).length_le
    rw [List.length_cons, List.length_map] at fewer
    have room : TAIL_K < usizeMax := by decide
    omega
  have starts : startsWithText (fs.key observed.relpath) (fs.key "evidence/") = true := by
    rw [relpath_eq, key_append]
    exact startsWithText_append _ _
  have member := list_complete storage _ usizeMax page found fits _ starts (Option.isSome_iff_exists.mpr ⟨_, there⟩)
    (located observed)
  have among : observed.filename ∈ page.keys.filterMap fun key => stripStart key (fs.key evidenceDir.indexed) :=
    List.mem_filterMap.mpr ⟨_, member, stripped observed⟩
  have json : evidenceDir.isRecord observed.filename = true := by
    rw [show evidenceDir.isRecord = isJsonRecord from rfl]
    exact record observed
  rw [← named, Tailed.names, List.mem_filter]
  exact ⟨among, json⟩

/-- What a step comes to. -/
structure Keeps (fs : AgentFs) (activity : Recording) (shared : Contended σ) (next : Recording) (after : Contended σ) :
    Prop where
  path : next.relpath = activity.relpath
  tidy : Tidy fs after.storage
  knows : Knows fs next after
  leaves : Leaves fs activity.filename shared after

omit [PlainListing σ] in
/-- A call that changes nothing moves on to a stage whose knowledge is there. -/
private theorem Keeps.quiet {activity : Recording} {shared : Contended σ} (tidy : Tidy fs shared.storage)
    (knows : Knows fs activity shared) {stage : Stage} (relies : Relies fs { activity with stage } shared) :
    Keeps fs activity shared { activity with stage } shared :=
  ⟨rfl, tidy, ⟨knows.genuine, knows.begun, relies⟩, .same rfl rfl fun _ => Iff.rfl⟩

omit [PlainListing σ] in
/-- So does a write elsewhere. -/
private theorem Keeps.beside {activity : Recording} {shared : Contended σ} (tidy : Tidy fs shared.storage)
    (knows : Knows fs activity shared) {key : String} {value : Content} (elsewhere : Elsewhere fs key) {after : σ}
    (written : AgentFs.put shared.storage key value = .ok after) {stage : Stage}
    (relies : Relies fs { activity with stage } ⟨after, shared.tailWrites⟩) :
    Keeps fs activity shared { activity with stage } ⟨after, shared.tailWrites⟩ := by
  obtain ⟨kept, tracked, filed⟩ := tidy.beside elsewhere written
  exact ⟨rfl, kept, ⟨knows.genuine, knows.begun, relies⟩, .same tracked rfl filed⟩

omit [PlainListing σ] in
/-- A write of the tail that covers what the tail has. -/
private theorem Keeps.tailed {activity : Recording} {shared : Contended σ} (tidy : Tidy fs shared.storage)
    (knows : Knows fs activity shared) {tail : TailObject}
    (gathered : Gathered fs shared activity.since (tail.entries.map (·.filename)))
    (undisturbed : shared.tailWrites = activity.since) {after : σ}
    (written : AgentFs.put shared.storage (fs.key EVIDENCE_TAIL_SUFFIX) (.tail tail) = .ok after) {stage : Stage}
    (relies : evidenceDir.tracked fs after = tail.entries.map (·.filename) →
      (∀ name, Filed fs after name ↔ Filed fs shared.storage name) →
        Relies fs { activity with stage } ⟨after, shared.tailWrites + 1⟩) :
    Keeps fs activity shared { activity with stage } ⟨after, shared.tailWrites + 1⟩ := by
  obtain ⟨kept, tracked, filed⟩ := tidy.tailed gathered.distinct gathered.filed written
  refine ⟨rfl, kept, ⟨knows.genuine, knows.begun.trans (Nat.le_succ _), relies tracked filed⟩, ?_⟩
  refine ⟨fun name => (filed name).mpr, fun name _ => (filed name).mp, .inr ⟨?_, Nat.lt_succ_self _⟩⟩
  intro name member
  rw [tracked]
  exact gathered.covers undisturbed name member

omit [PlainListing σ] in
private theorem elsewhere_of_head (attached : Attached fs) {name : Name} {rest : List Name} {path : String}
    (headed : keyPath path = name :: rest) (other : name ≠ evidenceName) : Elsewhere fs (fs.key path) := by
  have here : keyPath (fs.key "evidence") = keyPath (fs.key "") ++ [evidenceName] := keyPath_key attached "evidence"
  unfold Elsewhere
  rw [here, keyPath_key attached path, headed]
  constructor
  · intro above
    rw [List.prefix_append_right_inj] at above
    exact other (List.cons_prefix_cons.mp above).1.symm
  · intro above
    rw [List.prefix_append_right_inj] at above
    exact other (List.cons_prefix_cons.mp above).1

omit [PlainListing σ] in
/-- Opening goes on knowing that a record that was there has an entry. -/
private theorem relies_next {activity : Recording} {shared : Contended σ} (bucket : Bucket)
    (known : Filed fs shared.storage activity.filename → activity.filename ∈ evidenceDir.tracked fs shared.storage) :
    Relies fs { activity with stage := bucket.next } shared := by
  cases bucket <;> exact known

private theorem keeps_list {activity : Recording} {shared : Contended σ} {bucket : Bucket}
    (here : activity.stage = .list bucket) (few : Few fs shared.storage)
    (located : ∀ observed : Coral.Proofs.Observed, Shown σ (fs.key "evidence/") (fs.key observed.relpath))
    (tidy : Tidy fs shared.storage) (knows : Knows fs activity shared) {next : Recording} {after : Contended σ}
    (stepped : recordingStep fs activity shared = some (next, after)) : Keeps fs activity shared next after := by
  have relies := knows.relies
  simp only [recordingStep, here] at stepped
  simp only [Relies, here] at relies
  cases listed : AgentFs.listAll shared.storage (fs.key bucket.indexed) with
  | error error =>
    rw [listed] at stepped
    cases stepped
    exact .quiet tidy knows trivial
  | ok keys =>
    rw [listed] at stepped
    simp only at stepped
    cases bucket with
    | notes =>
      split at stepped
      · cases stepped
        exact .quiet tidy knows relies
      · cases stepped
        exact ⟨rfl, tidy, ⟨knows.genuine, Nat.le_refl _, relies⟩, .same rfl rfl fun _ => Iff.rfl⟩
    | evidence =>
      obtain ⟨distinct, onDisk⟩ := tidy.onDisk few located listed
      change (if (evidenceDir.names fs keys).isEmpty = true then _ else _) = _ at stepped
      split at stepped
      · rename_i empty
        cases stepped
        refine .quiet tidy knows (relies_next .evidence fun filed => ?_)
        rw [List.isEmpty_iff.mp empty] at onDisk
        exact absurd ((onDisk _).mpr filed) List.not_mem_nil
      · cases stepped
        have sorted := List.perm_insertionSort (fun first second : String => first.toList ≤ second.toList)
          (evidenceDir.names fs keys)
        refine ⟨rfl, tidy, ⟨knows.genuine, Nat.le_refl _, ⟨⟨sorted.nodup_iff.mpr distinct, ?_, ?_⟩, ?_⟩⟩,
          .same rfl rfl fun _ => Iff.rfl⟩
        · exact fun name member => (onDisk name).mp (sorted.mem_iff.mp member)
        · exact fun _ name member => sorted.mem_iff.mpr ((onDisk name).mpr (tidy.filed name member))
        · exact fun filed => sorted.mem_iff.mpr ((onDisk _).mpr filed)

private theorem names_rebuilt (sorted : List String) (tail : TailObject) (now : DateTime) (short : sorted.length < TAIL_K) :
    (rebuiltTail sorted tail now).entries.map (·.filename) = sorted.reverse := by
  unfold rebuiltTail
  rw [List.map_map, show sorted.length - TAIL_K = 0 by omega, List.drop_zero]
  exact List.map_id _

omit [PlainListing σ] in
private theorem keeps_compare {activity : Recording} {shared : Contended σ} {bucket : Bucket} {sorted : List String}
    (here : activity.stage = .compare bucket sorted) (few : Few fs shared.storage) (tidy : Tidy fs shared.storage)
    (knows : Knows fs activity shared) {next : Recording} {after : Contended σ}
    (stepped : recordingStep fs activity shared = some (next, after)) : Keeps fs activity shared next after := by
  have relies := knows.relies
  simp only [recordingStep, here] at stepped
  simp only [Relies, here] at relies
  cases read : AgentFs.get shared.storage (fs.key bucket.suffix) with
  | error error =>
    rw [read] at stepped
    cases stepped
    exact .quiet tidy knows trivial
  | ok found =>
    rw [read] at stepped
    simp only at stepped
    cases bucket with
    | notes =>
      split at stepped
      · cases stepped
        exact .quiet tidy knows relies
      · cases stepped
        exact .quiet tidy knows relies
    | evidence =>
      obtain ⟨gathered, mine⟩ := relies
      have tail : (found.bind Content.asTail).getD {} = tailAt shared.storage (fs.key EVIDENCE_TAIL_SUFFIX) := by
        rw [get_spec read]
        rfl
      rw [tail] at stepped
      split at stepped
      · rename_i covered
        cases stepped
        refine .quiet tidy knows (relies_next .evidence fun filed => ?_)
        obtain ⟨entry, among, same⟩ := List.any_eq_true.mp (List.all_eq_true.mp covered _ (mine filed))
        exact List.mem_map.mpr ⟨entry, among, eq_of_beq same⟩
      · cases stepped
        refine .quiet tidy knows ?_
        have names := names_rebuilt sorted (tailAt shared.storage (fs.key EVIDENCE_TAIL_SUFFIX))
          (Bucket.evidence.reading activity.clock) (few.length gathered.distinct gathered.filed)
        simp only [Relies]
        rw [names]
        refine ⟨⟨List.nodup_reverse.mpr gathered.distinct, ?_, ?_⟩, fun filed => List.mem_reverse.mpr (mine filed)⟩
        · exact fun name member => gathered.filed name (List.mem_reverse.mp member)
        · exact fun fresh name member => List.mem_reverse.mpr (gathered.covers fresh name member)

omit [PlainListing σ] in
private theorem keeps_rebuild (attached : Attached fs) {activity : Recording} {shared : Contended σ} {bucket : Bucket}
    {tail : TailObject} (here : activity.stage = .rebuild bucket tail)
    (undisturbed : activity.writesTail = true → shared.tailWrites = activity.since) (tidy : Tidy fs shared.storage)
    (knows : Knows fs activity shared) {next : Recording} {after : Contended σ}
    (stepped : recordingStep fs activity shared = some (next, after)) : Keeps fs activity shared next after := by
  have relies := knows.relies
  simp only [recordingStep, here] at stepped
  simp only [Relies, here] at relies
  cases written : AgentFs.put shared.storage (fs.key bucket.suffix) (.tail tail) with
  | error error =>
    rw [written] at stepped
    cases stepped
    exact .quiet tidy knows trivial
  | ok final =>
    rw [written] at stepped
    cases stepped
    cases bucket with
    | notes =>
      have elsewhere : Elsewhere fs (fs.key NOTES_TAIL_SUFFIX) :=
        elsewhere_of_head attached (show keyPath NOTES_TAIL_SUFFIX = notesName :: [tailName] from rfl) (by decide)
      have effect := tidy.beside elsewhere written
      refine .beside tidy knows elsewhere written (relies_next .notes ?_)
      intro filed
      rw [effect.2.1]
      exact relies ((effect.2.2 _).mp filed)
    | evidence =>
      refine .tailed tidy knows relies.1 (undisturbed (by simp only [Recording.writesTail, here])) written ?_
      intro tracked filed
      refine relies_next .evidence fun mine => ?_
      rw [tracked]
      exact relies.2 ((filed _).mp mine)

omit [PlainListing σ] in
private theorem keeps_record {activity : Recording} {shared : Contended σ} (here : activity.stage = .record)
    (tidy : Tidy fs shared.storage) (knows : Knows fs activity shared) {next : Recording} {after : Contended σ}
    (stepped : recordingStep fs activity shared = some (next, after)) : Keeps fs activity shared next after := by
  have relies := knows.relies
  obtain ⟨observed, path, record⟩ := knows.genuine
  have name : activity.filename = observed.filename := by
    unfold Recording.filename Coral.Proofs.Observed.filename
    rw [path]
  simp only [recordingStep, here] at stepped
  simp only [Relies, here] at relies
  cases wrote : AgentStorage.putIfAbsent shared.storage (fs.key activity.relpath) (.evidence activity.record) with
  | error source =>
    rw [wrote] at stepped
    cases stepped
    exact .quiet tidy knows trivial
  | ok result =>
    obtain ⟨outcome, final⟩ := result
    rw [wrote] at stepped
    rw [path, record] at wrote
    cases outcome with
    | existed =>
      cases stepped
      obtain ⟨kept, tracked, mine, filed⟩ := tidy.existed observed wrote
      rw [← name] at mine
      refine ⟨rfl, kept, ⟨knows.genuine, knows.begun, rfl, (filed _).mpr mine, ?_⟩, .same tracked rfl filed⟩
      rw [tracked]
      exact relies mine
    | created =>
      cases stepped
      obtain ⟨kept, tracked, mine, filed⟩ := tidy.created observed wrote
      rw [← name] at mine filed
      refine ⟨rfl, kept, ⟨knows.genuine, knows.begun, mine⟩, ⟨?_, fun other elsewhere => (filed other elsewhere).mp,
        .inl ⟨tracked, rfl⟩⟩⟩
      intro other there
      by_cases same : other = activity.filename
      · rw [same]
        exact mine
      · exact (filed other same).mpr there

private theorem names_appended (tail : TailObject) (name : String) (now : DateTime) :
    (appended tail name now).entries.map (·.filename) =
      (name :: (tail.entries.map (·.filename)).filter (· != name)).take TAIL_K := by
  unfold appended
  rw [List.map_take, List.map_cons, List.filter_map]
  rfl

omit [PlainListing σ] in
/-- What an append is about to write: the tail as it is, and the new name. -/
private theorem gathered_appended {shared : Contended σ} {name : String} (few : Few fs shared.storage)
    (tidy : Tidy fs shared.storage) (filed : Filed fs shared.storage name) (now : DateTime) :
    Gathered fs shared shared.tailWrites
        ((appended (tailAt shared.storage (fs.key EVIDENCE_TAIL_SUFFIX)) name now).entries.map (·.filename)) ∧
      name ∈ (appended (tailAt shared.storage (fs.key EVIDENCE_TAIL_SUFFIX)) name now).entries.map (·.filename) := by
  have distinct : (name :: (evidenceDir.tracked fs shared.storage).filter (· != name)).Nodup :=
    List.nodup_cons.mpr ⟨by simp, tidy.distinct.filter _⟩
  have all_filed : ∀ other ∈ name :: (evidenceDir.tracked fs shared.storage).filter (· != name),
      Filed fs shared.storage other := by
    intro other member
    rcases List.mem_cons.mp member with rfl | old
    · exact filed
    · exact tidy.filed other (List.mem_of_mem_filter old)
  have short := few.length distinct all_filed
  have names := names_appended (tailAt shared.storage (fs.key EVIDENCE_TAIL_SUFFIX)) name now
  change _ = (name :: (evidenceDir.tracked fs shared.storage).filter (· != name)).take TAIL_K at names
  rw [names, List.take_of_length_le (Nat.le_of_lt short)]
  refine ⟨⟨distinct, all_filed, ?_⟩, List.mem_cons_self⟩
  intro _ other member
  by_cases same : other = name
  · exact List.mem_cons.mpr (.inl same)
  · exact List.mem_cons_of_mem _ (List.mem_filter.mpr ⟨member, bne_iff_ne.mpr same⟩)

omit [PlainListing σ] in
private theorem keeps_readTail {activity : Recording} {shared : Contended σ} (here : activity.stage = .readTail)
    (few : Few fs shared.storage) (tidy : Tidy fs shared.storage) (knows : Knows fs activity shared) {next : Recording}
    {after : Contended σ} (stepped : recordingStep fs activity shared = some (next, after)) :
    Keeps fs activity shared next after := by
  have relies := knows.relies
  simp only [recordingStep, here] at stepped
  simp only [Relies, here] at relies
  cases read : AgentFs.get shared.storage (fs.key EVIDENCE_TAIL_SUFFIX) with
  | error error =>
    rw [read] at stepped
    cases stepped
    exact .quiet tidy knows trivial
  | ok found =>
    have tail : (found.bind Content.asTail).getD {} = tailAt shared.storage (fs.key EVIDENCE_TAIL_SUFFIX) := by
      rw [get_spec read]
      rfl
    rw [read] at stepped
    simp only [tail] at stepped
    cases stepped
    exact ⟨rfl, tidy, ⟨knows.genuine, Nat.le_refl _, gathered_appended few tidy relies (activity.clock 3)⟩,
      .same rfl rfl fun _ => Iff.rfl⟩

/-- Every step keeps the directory tidy and what the activities know, as long as the tail is
only overwritten by one that has read it since it was last written. -/
theorem recordingStep_keeps (attached : Attached fs)
    (located : ∀ observed : Coral.Proofs.Observed, Shown σ (fs.key "evidence/") (fs.key observed.relpath)) {activity next : Recording}
    {shared after : Contended σ} (few : Few fs shared.storage)
    (undisturbed : activity.writesTail = true → shared.tailWrites = activity.since) (tidy : Tidy fs shared.storage)
    (knows : Knows fs activity shared) (stepped : recordingStep fs activity shared = some (next, after)) :
    Keeps fs activity shared next after := by
  cases here : activity.stage with
  | readMandate =>
    simp only [recordingStep, here] at stepped
    split at stepped
    · cases stepped
      exact .quiet tidy knows trivial
    · cases stepped
      refine .quiet tidy knows ?_
      split <;> trivial
  | writeMandate =>
    simp only [recordingStep, here] at stepped
    split at stepped
    · cases stepped
      exact .quiet tidy knows trivial
    · rename_i written
      cases stepped
      exact .beside tidy knows
        (elsewhere_of_head attached (show keyPath "mandate.md" = mandateName :: [] from rfl) (by decide)) written trivial
  | list bucket => exact keeps_list here few located tidy knows stepped
  | compare bucket sorted => exact keeps_compare here few tidy knows stepped
  | rebuild bucket tail => exact keeps_rebuild attached here undisturbed tidy knows stepped
  | record => exact keeps_record here tidy knows stepped
  | readTail => exact keeps_readTail here few tidy knows stepped
  | append tail =>
    have relies := knows.relies
    simp only [recordingStep, here] at stepped
    simp only [Relies, here] at relies
    split at stepped
    · cases stepped
      exact .quiet tidy knows trivial
    · rename_i written
      cases stepped
      refine .tailed tidy knows relies.1 (undisturbed (by simp only [Recording.writesTail, here])) written ?_
      intro tracked filed
      refine ⟨rfl, (filed _).mpr (relies.1.filed _ relies.2), ?_⟩
      rw [tracked]
      exact relies.2
  | ended result =>
    simp only [recordingStep, here] at stepped
    cases stepped

end Steps

section Runs

variable {σ : Type} [AgentStorage σ] [LawfulStorage σ] {fs : AgentFs}

/-- No step takes a record away. -/
theorem recordingStep_grows (attached : Attached fs) {activity next : Recording} {shared after : Contended σ}
    (stepped : recordingStep fs activity shared = some (next, after)) {name : String} (filed : Filed fs shared.storage name) :
    Filed fs after.storage name := by
  obtain ⟨observed, record, named, there⟩ := filed
  have put_apart : ∀ {key : String} {value : Content} {final : σ}, AgentFs.put shared.storage key value = .ok final →
      keyPath (fs.key observed.relpath) ≠ keyPath key → Filed fs final name := by
    intro key value final written apart
    refine ⟨observed, record, named, ?_⟩
    rw [(put_spec written).2.apart apart]
    exact there
  have elsewhere : ∀ {path : String} {head : Name} {rest : List Name}, keyPath path = head :: rest → head ≠ evidenceName →
      keyPath (fs.key observed.relpath) ≠ keyPath (fs.key path) := by
    intro path head rest headed other same
    exact (elsewhere_of_head attached headed other).1 (same ▸ relpath_below fs observed)
  have kept : Filed fs shared.storage name := ⟨observed, record, named, there⟩
  unfold recordingStep at stepped
  simp only at stepped
  split at stepped
  · split at stepped <;> cases stepped <;> exact kept
  · split at stepped
    · cases stepped
      exact kept
    · rename_i written
      cases stepped
      exact put_apart written (elsewhere (show keyPath "mandate.md" = mandateName :: [] from rfl) (by decide))
  · split at stepped
    · cases stepped
      exact kept
    · split at stepped <;> cases stepped <;> exact kept
  · split at stepped
    · cases stepped
      exact kept
    · split at stepped <;> cases stepped <;> exact kept
  · rename_i bucket tail _
    split at stepped
    · cases stepped
      exact kept
    · rename_i written
      cases stepped
      cases bucket with
      | evidence => exact put_apart written (sidecar_apart fs observed)
      | notes =>
        exact put_apart written (elsewhere (show keyPath NOTES_TAIL_SUFFIX = notesName :: [tailName] from rfl) (by decide))
  · split at stepped
    · cases stepped
      exact kept
    · rename_i final wrote
      cases stepped
      refine ⟨observed, record, named, ?_⟩
      rw [viewAt, putIfAbsent_existed shared.storage final _ _ (raw_ok wrote)]
      exact there
    · rename_i final wrote
      cases stepped
      obtain ⟨absent, -, views⟩ := putIfAbsent_created shared.storage final _ _ (raw_ok wrote)
      refine ⟨observed, record, named, ?_⟩
      rw [viewAt, views, if_neg]
      · exact there
      · intro same
        rw [viewAt, same, absent] at there
        cases there
  · split at stepped <;> cases stepped <;> exact kept
  · split at stepped
    · cases stepped
      exact kept
    · rename_i written
      cases stepped
      exact put_apart written (sidecar_apart fs observed)
  · cases stepped

omit [LawfulStorage σ] in
private theorem getMany_present {storage : σ} {keys : List String}
    (present : ∀ key ∈ keys, ∃ record, AgentStorage.get storage key = .ok (some (.evidence record))) :
    ∃ records : List EvidenceRecord, AgentStorage.getMany storage keys =
        .ok (records.map fun record => some (.evidence record)) ∧
      ∀ key ∈ keys, ∀ record, AgentStorage.get storage key = .ok (some (.evidence record)) → record ∈ records := by
  unfold AgentStorage.getMany
  induction keys with
  | nil => exact ⟨[], rfl, nofun⟩
  | cons key keys ih =>
    rw [List.forall_mem_cons] at present
    obtain ⟨record, here⟩ := present.1
    obtain ⟨records, rest, among⟩ := ih present.2
    refine ⟨record :: records, ?_, ?_⟩
    · rw [List.mapM_cons, here, rest]
      rfl
    · intro other member found got
      rcases List.mem_cons.mp member with rfl | later
      · rw [here] at got
        cases got
        exact List.mem_cons_self
      · exact List.mem_cons_of_mem _ (among other later found got)

/-- Every record that the tail names is among the latest ones. -/
theorem Tidy.returned [Answering σ] {storage : σ} (tidy : Tidy fs storage) (few : Few fs storage) {observed : Coral.Proofs.Observed}
    {record : EvidenceRecord} (listed : observed.filename ∈ evidenceDir.tracked fs storage)
    (there : viewAt storage (fs.key observed.relpath) = some (.evidence record)) :
    ∃ records, fs.listRecentEvidence TAIL_K storage = .ok records ∧ record ∈ records := by
  have room := few.length tidy.distinct tidy.filed
  obtain ⟨entry, member, -⟩ := List.mem_map.mp listed
  obtain ⟨content, sidecar⟩ : ∃ content, viewAt storage (fs.key EVIDENCE_TAIL_SUFFIX) = some content := by
    cases missing : viewAt storage (fs.key EVIDENCE_TAIL_SUFFIX) with
    | some content => exact ⟨content, rfl⟩
    | none =>
      rw [tailAt, show evidenceDir.suffix = EVIDENCE_TAIL_SUFFIX from rfl, missing] at member
      cases member
  obtain ⟨tail, formed⟩ : ∃ tail, content.asTail = some tail := by
    cases torn : content.asTail with
    | some tail => exact ⟨tail, rfl⟩
    | none =>
      rw [tailAt, show evidenceDir.suffix = EVIDENCE_TAIL_SUFFIX from rfl, sidecar, Option.bind_some, torn] at member
      cases member
  have tracked : evidenceDir.tracked fs storage = tail.entries.map (·.filename) := by
    rw [Tailed.tracked, tailAt, show evidenceDir.suffix = EVIDENCE_TAIL_SUFFIX from rfl, sidecar, Option.bind_some, formed]
    rfl
  rw [tracked] at room listed
  have read : AgentFs.get storage (fs.key EVIDENCE_TAIL_SUFFIX) = .ok (some content) := by
    unfold AgentFs.get AgentFs.stored
    rw [Answering.get_present storage _ content sidecar]
  have get_filed : ∀ (observed : Coral.Proofs.Observed) record, viewAt storage (fs.key observed.relpath) = some (.evidence record) →
      AgentStorage.get storage (fs.key "evidence/" ++ observed.filename) = .ok (some (.evidence record)) := by
    intro observed record found
    rw [← key_append, ← relpath_eq]
    exact Answering.get_present storage _ _ found
  have taken : tail.entries.take (min tail.entries.length TAIL_K) = tail.entries := by
    rw [List.length_map] at room
    exact List.take_of_length_le (by omega)
  have sorted := List.perm_insertionSort (fun first second : String => first.toList ≤ second.toList)
    (tail.entries.map (·.filename))
  obtain ⟨records, got, among⟩ := @getMany_present σ _ storage
    (((tail.entries.map (·.filename)).insertionSort fun first second => first.toList ≤ second.toList).map
      (fs.key "evidence/" ++ ·)) (by
    intro key member
    obtain ⟨name, named, same⟩ := List.mem_map.mp member
    obtain ⟨other, found, same', there'⟩ := tidy.filed name (tracked ▸ sorted.mem_iff.mp named)
    refine ⟨found, ?_⟩
    rw [← same, ← same']
    exact get_filed other found there')
  refine ⟨records, ?_, among _ (List.mem_map_of_mem (sorted.mem_iff.mpr listed)) record (get_filed observed record there)⟩
  unfold AgentFs.listRecentEvidence AgentFs.readRecentWindowWithTail
  rw [if_neg (by decide), read]
  have short : tail.entries.length < TAIL_K := by
    rw [← List.length_map]
    exact room
  simp only [AgentFs.read, bind, Except.bind, Option.bind_some, formed]
  rw [if_pos (.inl short)]
  unfold AgentFs.readKeysForTail AgentFs.readKeys
  simp only [taken]
  rw [if_neg, got]
  · exact decodeAll_records records
  · intro empty
    rw [List.map_eq_nil_iff] at empty
    rw [← sorted.mem_iff, empty] at listed
    cases listed

end Runs

section Batch

variable {σ : Type} [AgentStorage σ] [LawfulStorage σ]

/-- The activity of a call whose tool has answered. -/
def recording (call : Coral.Proofs.Observed × Clock) : Recording := ⟨call.1.record, call.1.slugSeed, call.2, .readMandate, 0⟩

/-- The tail has not been written since the update began that overwrites it. -/
def Undisturbed (activity : Recording) (shared : Contended σ) : Prop :=
  activity.writesTail = true → shared.tailWrites = activity.since

/-- Each call that has succeeded has its file in the tail and among the latest records. -/
def AllIndexed (fs : AgentFs) (batch : List Recording) (storage : σ) : Prop :=
  ∀ activity ∈ batch, ∀ path, activity.stage = .ended (.ok (.success path)) →
    path = activity.relpath ∧ activity.filename ∈ evidenceDir.tracked fs storage ∧
      ∃ records record, fs.listRecentEvidence TAIL_K storage = .ok records ∧
        viewAt storage (fs.key path) = some (.evidence record) ∧ record ∈ records

variable {fs : AgentFs}

private theorem relpath_recording (call : Coral.Proofs.Observed × Clock) : (recording call).relpath = call.1.relpath := by
  rw [Recording.relpath, Coral.Proofs.Observed.relpath, recording]

/-- The paths of two activities differ only where the names do. -/
private theorem Knows.apart {first second : Recording} {shared : Contended σ} (one : Knows fs first shared)
    (two : Knows fs second shared) (other : second.relpath ≠ first.relpath) : second.filename ≠ first.filename := by
  obtain ⟨observed, path, -⟩ := one.genuine
  obtain ⟨observed', path', -⟩ := two.genuine
  intro same
  unfold Recording.filename at same
  rw [path, path'] at same other
  exact other (filename_inj same)

private theorem few_before (attached : Attached fs) {all batch : List Recording} {shared final : Contended σ}
    {turns : List Nat} {outputs : List Unit}
    (ran : (toolBatch fs).machine.run (all, shared) turns = some ((batch, final), outputs)) (few : Few fs final.storage) :
    (toolBatch fs).machine.Along (fun state _ => Few fs state.2.storage) (all, shared) turns := by
  refine ((toolBatch fs).machine.along_of_final (fun state => Few fs state.2.storage) ?_ ran few).2
  intro (present, before) turn next _ stepped ⟨names, short, within⟩
  obtain ⟨thread, moved, -, step, -⟩ := (toolBatch fs).machine_step stepped
  exact ⟨names, short, fun name filed => within name (recordingStep_grows attached step filed)⟩

/-- As long as no activity overwrites a tail written since it began, every call of the batch
has its file indexed. -/
theorem batch_indexed [PlainListing σ] [Answering σ] {raw : String} {storage : σ} {calls : List (Coral.Proofs.Observed × Clock)}
    {turns : List Nat} {batch : List Recording} {final : Contended σ} {outputs : List Unit}
    (located : ∀ observed : Coral.Proofs.Observed, Shown σ ((AgentFs.attach raw).key "evidence/") ((AgentFs.attach raw).key observed.relpath))
    (tidy : Tidy (.attach raw) storage) (distinct : (calls.map (·.1.relpath)).Nodup)
    (ran : (toolBatch (.attach raw)).machine.run (calls.map recording, ⟨storage, 0⟩) turns = some ((batch, final), outputs))
    (few : Few (.attach raw) final.storage)
    (undisturbed : (toolBatch (.attach raw)).machine.Along (Threads.Turn Undisturbed)
      (calls.map recording, ⟨storage, 0⟩) turns) :
    AllIndexed (.attach raw) batch final.storage := by
  have attached := attached_attach raw
  have identities : ((calls.map recording).map Recording.relpath).Nodup := by
    rw [List.map_map]
    simp only [Function.comp_def, relpath_recording]
    exact distinct
  have known : ∀ activity ∈ calls.map recording, Knows (.attach raw) activity (⟨storage, 0⟩ : Contended σ) := by
    intro activity member
    obtain ⟨call, -, rfl⟩ := List.mem_map.mp member
    exact { genuine := ⟨call.1, relpath_recording call, rfl⟩, begun := Nat.le_refl 0, relies := trivial }
  have alongside : (toolBatch (.attach raw)).machine.Along
      (Threads.Turn fun activity shared => Few (.attach raw) shared.storage ∧ Undisturbed activity shared)
      (calls.map recording, ⟨storage, 0⟩) turns :=
    (toolBatch _).machine.along_mono (fun _ _ both activity here => ⟨both.1, both.2 activity here⟩)
      ((toolBatch _).machine.along_and (few_before attached ran few) undisturbed)
  obtain ⟨-, tidy, knows⟩ := (toolBatch _).run_stable (fun shared => Tidy (.attach raw) shared.storage)
    (Knows (.attach raw)) (by
    intro activity shared next after stepped ⟨few, undisturbed⟩ tidy knows
    have keeps := recordingStep_keeps attached located few undisturbed tidy knows stepped
    exact ⟨keeps.path, keeps.tidy, keeps.knows, fun other apart knowing =>
      knowing.stable keeps.leaves (knows.apart knowing apart)⟩) identities tidy known
    alongside ran
  intro activity member path here
  have knows := knows activity member
  have relies := knows.relies
  obtain ⟨observed, same, -⟩ := knows.genuine
  simp only [Relies, here] at relies
  obtain ⟨rfl, ⟨other, record, named, there⟩, listed⟩ := relies
  refine ⟨rfl, listed, ?_⟩
  rw [← named] at listed
  obtain ⟨records, read, among⟩ := tidy.returned few listed there
  refine ⟨records, record, read, ?_, among⟩
  have path : activity.relpath = other.relpath := by
    unfold Recording.filename at named
    rw [same] at named ⊢
    exact (filename_inj named).symm
  rw [path]
  exact there

end Batch

section Schedules

theorem tidy_fresh {σ : Type} [AgentStorage σ] [LawfulStorage σ] {fs : AgentFs} {storage : σ}
    (fresh : FreshEvidence fs storage) : Tidy fs storage := by
  have untracked : evidenceDir.tracked fs storage = [] := by
    unfold Tailed.tracked tailAt
    rw [show evidenceDir.suffix = EVIDENCE_TAIL_SUFFIX from rfl, fresh.blank _ (sidecar_below fs)]
    rfl
  refine ⟨fun key below there => absurd (fresh.blank key below) there, fun observed _ => fresh.unrecorded observed, ?_, ?_⟩
  · rw [untracked]
    exact List.nodup_nil
  · rw [untracked]
    exact nofun

private theorem few_memory {fs : AgentFs} {storage : MemoryStorage} (few : storage.inner.keys.length < TAIL_K) :
    Few fs storage := by
  refine ⟨storage.inner.keys.map fun key => (stripStart key (fs.key "evidence/")).getD "", ?_, ?_⟩
  · rw [List.length_map]
    exact few
  · intro name ⟨observed, record, named, there⟩
    have member : fs.key observed.relpath ∈ storage.inner.keys := AList.lookup_isSome.mp (Option.isSome_of_eq_some there)
    refine List.mem_map.mpr ⟨_, member, ?_⟩
    rw [relpath_eq, key_append, stripStart_append, Option.getD_some, named]

instance (activity : Recording) {σ : Type} (shared : Contended σ) : Decidable (Undisturbed activity shared) :=
  inferInstanceAs (Decidable (_ → _))

def succeeded (activity : Recording) : Bool :=
  match activity.stage with
  | .ended (.ok (.success _)) => true
  | _ => false

private def pair : List (Coral.Proofs.Observed × Clock) := [(counted 0, fun _ => ⟨0⟩), (counted 1, fun _ => ⟨0⟩)]

/-- The two activities of the pair on an empty store, which take their turns as told. -/
private def pairRun (turns : List Nat) : Option ((List Recording × Contended MemoryStorage) × List Unit) :=
  (toolBatch (.attach "")).machine.run (pair.map recording, ⟨⟨∅⟩, 0⟩) turns

private theorem pair_apart : (pair.map (·.1.relpath)).Nodup := by decide +kernel

theorem batch_indexed_one_by_one :
    ∃ batch final outputs, (toolBatch (.attach "")).machine.run
        ([(counted 0, fun _ => ⟨0⟩), (counted 1, fun _ => ⟨0⟩)].map recording, ⟨(⟨∅⟩ : MemoryStorage), 0⟩)
          (List.replicate 7 0 ++ List.replicate 7 1) = some ((batch, final), outputs) ∧
      (∀ activity ∈ batch, succeeded activity = true) ∧ AllIndexed (.attach "") batch final.storage := by
  have result : ∃ found ∈ pairRun (List.replicate 7 0 ++ List.replicate 7 1),
      (∀ activity ∈ found.1.1, succeeded activity = true) ∧ found.1.2.storage.inner.keys.length < TAIL_K := by
    decide +kernel
  obtain ⟨⟨⟨batch, final⟩, outputs⟩, ran, all, few⟩ := result
  refine ⟨batch, final, outputs, ran, all, ?_⟩
  exact batch_indexed (fun _ => trivial) (tidy_fresh (freshEvidence_memory _)) pair_apart ran (few_memory few) (by decide +kernel)

/-- Two activities that have both read the tail before either writes it leave one name in it. -/
theorem entry_overwritten :
    ¬ ∀ (raw : String) (storage : MemoryStorage) (calls : List (Coral.Proofs.Observed × Clock)) (turns : List Nat)
        (batch : List Recording) (final : Contended MemoryStorage) (outputs : List Unit),
        Tidy (.attach raw) storage → (calls.map (·.1.relpath)).Nodup →
        (toolBatch (.attach raw)).machine.run (calls.map recording, ⟨storage, 0⟩) turns = some ((batch, final), outputs) →
        (∀ activity ∈ batch, succeeded activity = true) → Few (.attach raw) final.storage →
          AllIndexed (.attach raw) batch final.storage := by
  intro told
  have result : ∃ found ∈ pairRun [0, 0, 0, 0, 1, 1, 1, 0, 1, 0, 1, 0, 1],
      ((∀ activity ∈ found.1.1, succeeded activity = true) ∧ found.1.2.storage.inner.keys.length < TAIL_K) ∧
        ∃ activity ∈ found.1.1, activity.filename ∉ evidenceDir.tracked (.attach "") found.1.2.storage := by
    decide +kernel
  obtain ⟨⟨⟨batch, final⟩, outputs⟩, ran, ⟨all, few⟩, activity, member, missing⟩ := result
  have indexed := told "" ⟨∅⟩ pair _ batch final outputs (tidy_fresh (freshEvidence_memory _)) pair_apart ran all
    (few_memory few) activity member
  have ended := all activity member
  unfold succeeded at ended
  split at ended
  · rename_i path here
    exact missing (indexed path here).2.1
  · cases ended

end Schedules

end Coral.Temporal.Proofs

import Coral.Library.Machine
import Coral.Proofs.DecisionEncoding
import Coral.Proofs.PersistConvergence
import Coral.Temporal.FileActivities

/-! The conflicts on file. The id and the kind of a record are right because its constructor
derives them, and its alternatives are counted; which of them was chosen is not looked at. -/

namespace Coral

/-- What a reader of the log takes for granted of a record. -/
structure ConflictRecord.WellFormed (record : ConflictRecord) : Prop where
  several : 2 ≤ record.alternatives.length
  kind : record.kind = .resolved ↔ record.resolution.isSome = true
  id : record.id = .new record.alternatives record.resolution
  chosen : ∀ resolution, record.resolution = some resolution →
    resolution.chosenAlternativeIdx < record.alternatives.length

/-- The resolution, if there is one, points at an alternative. -/
def ConflictRecordIntent.InBounds (intent : ConflictRecordIntent) : Prop :=
  ∀ resolution, intent.resolution = some resolution → resolution.chosenAlternativeIdx < intent.alternatives.length

instance (intent : ConflictRecordIntent) : Decidable intent.InBounds := by
  unfold ConflictRecordIntent.InBounds
  cases intent.resolution with
  | none => exact .isTrue nofun
  | some resolution =>
    exact decidable_of_iff (resolution.chosenAlternativeIdx < intent.alternatives.length)
      ⟨fun bounded _ same => Option.some.inj same ▸ bounded, fun bounded => bounded resolution rfl⟩

/-- What the record was made from. -/
def ConflictRecord.intent (record : ConflictRecord) : ConflictRecordIntent := ⟨record.alternatives, record.resolution⟩

theorem ConflictRecord.new_wellFormed (timestamp : DateTime) {intent : ConflictRecordIntent}
    (several : 2 ≤ intent.alternatives.length) (bounded : intent.InBounds) :
    (ConflictRecord.new timestamp intent).WellFormed where
  several := several
  kind := by
    unfold ConflictRecord.new ConflictKind.fromResolution
    cases intent.resolution <;> simp
  id := rfl
  chosen := bounded

end Coral

namespace Coral.Proofs
open Coral.Library Coral.Temporal LawfulStorage

section Texts

private theorem alternative_injective : Function.Injective ConflictAlternative.toJson := by
  intro first second same
  have read := conflictAlternative_inverts first
  rw [same, conflictAlternative_inverts] at read
  exact (Option.some.inj read).symm

private theorem resolution_injective : Function.Injective ConflictResolution.toJson := by
  intro first second same
  obtain ⟨index, reasoning⟩ := first
  obtain ⟨other, reasons⟩ := second
  simpa [ConflictResolution.toJson, Json.nat] using same

private theorem kind_injective : Function.Injective ConflictKind.toJson := by
  intro first second same
  cases first <;> cases second <;> simp [ConflictKind.toJson] at same ⊢

/-- Two records of the same text differ in their times at most. -/
theorem conflictRecord_toJson_inj {rfc3339 : DateTime → String} {first second : ConflictRecord}
    (same : first.toJson rfc3339 = second.toJson rfc3339) :
    first.id = second.id ∧ first.kind = second.kind ∧ first.intent = second.intent := by
  obtain ⟨⟨hex⟩, timestamp, kind, alternatives, resolution⟩ := first
  obtain ⟨⟨hex'⟩, timestamp', kind', alternatives', resolution'⟩ := second
  unfold ConflictRecord.toJson at same
  simp only [Json.object.injEq, List.cons_append, List.nil_append, List.cons.injEq, Prod.mk.injEq, true_and,
    Json.string.injEq, Json.list, Json.array.injEq] at same
  obtain ⟨ids, -, kinds, items, resolved⟩ := same
  have alike : resolution = resolution' := by
    cases resolution <;> cases resolution' <;> simp [Json.optionalMember] at resolved ⊢
    exact resolution_injective resolved
  refine ⟨congrArg ConflictId.mk ids, kind_injective kinds, ?_⟩
  unfold ConflictRecord.intent
  rw [List.map_injective_iff.mpr alternative_injective items, alike]

end Texts

section Conflicts

def conflictsName : Name := ⟨"conflicts", by decide⟩

variable {σ : Type} [AgentStorage σ] [LawfulStorage σ] {storage : σ}

/-- What is at a name among the conflicts of the agent whose files are under the prefix. -/
def conflictAt (storage : σ) (root : String) (name : Name) : Option Content :=
  viewAt storage ((AgentFs.attach root).key ("conflicts/" ++ name.text))

theorem keyPath_conflict (root : String) (name : Name) :
    keyPath ((AgentFs.attach root).key ("conflicts/" ++ name.text)) =
      keyPath ((AgentFs.attach root).key "") ++ [conflictsName] ++ [name] := by
  rw [keyPath_key (attached_attach root), show "conflicts/" = conflictsName.text ++ "/" from rfl, keyPath_dir,
    show keyPath name.text = [name] from keyPath_joinPath [name], List.append_assoc]
  rfl

/-- A path that lies in a directory of another name is no conflict's. -/
theorem conflict_apart {above : List Name} {directory file : Name} (other : directory ≠ conflictsName) (root : String)
    (name : Name) : keyPath ((AgentFs.attach root).key ("conflicts/" ++ name.text)) ≠ above ++ [directory] ++ [file] := by
  intro same
  rw [keyPath_conflict] at same
  have parents := (List.append_inj' same rfl).1
  exact other (List.cons.inj (List.append_inj' parents rfl).2).1.symm

theorem viewAt_recordEvidence (fs : AgentFs) (now : DateTime) (record : EvidenceRecord) (slugSeed : String) {key : String}
    (aside : keyPath key ≠ keyPath (fs.key (evidenceRelpath slugSeed record.id)))
    (untailed : keyPath key ≠ keyPath (fs.key EVIDENCE_TAIL_SUFFIX)) :
    viewAt (fs.recordEvidence now record slugSeed storage).2 key = viewAt storage key := by
  generalize recorded : fs.recordEvidence now record slugSeed storage = result
  obtain ⟨ended, after⟩ := result
  rcases recordEvidence_cases recorded with ⟨-, -, same⟩ | ⟨-, existed⟩ | ⟨middle, created, rest⟩
  · rw [same]
  · change viewAt after key = _
    unfold viewAt
    rw [putIfAbsent_existed storage after _ _ existed]
  · have sets : Sets storage middle (fs.key (evidenceRelpath slugSeed record.id)) (some (.evidence record)) :=
      (putIfAbsent_created storage middle _ _ created).2.2
    rcases rest with ⟨-, -, same⟩ | ⟨-, followed⟩
    · rw [same]
      exact sets.apart aside
    · exact ((appendToTail_ok followed).2.apart untailed).trans (sets.apart aside)

/-- A fold is written beside the conflicts. -/
theorem conflictAt_fold (codec : Codec) {agent root : String} {name : Name} {source : ReconcileSource} {body : String}
    {now time : DateTime} : conflictAt ((AgentFs.attach agent).recordEvidence time (foldRecord codec source body now)
      (foldSeed source) storage).2 root name = conflictAt storage root name := by
  have below : keyPath ((AgentFs.attach agent).key "evidence") =
      keyPath ((AgentFs.attach agent).key "") ++ [evidenceName] := by
    rw [keyPath_key (attached_attach agent)]
    rfl
  let observed : Observed := ⟨"reconcile", (foldRecord codec source body now).args, .string body, now, foldSeed source, time⟩
  obtain ⟨file, -, -, path⟩ := keyPath_relpath (.attach agent) observed
  obtain ⟨sidecar, -, tail⟩ := keyPath_evidenceTail (.attach agent)
  apply viewAt_recordEvidence
  · rw [show evidenceRelpath (foldSeed source) (foldRecord codec source body now).id = observed.relpath from rfl, path, below]
    exact conflict_apart (by decide) root name
  · rw [tail, below]
    exact conflict_apart (by decide) root name

theorem conflictAt_writeFolds (codec : Codec) {agent root : String} {name : Name} {now : DateTime} {clock : Clock}
    (reading : Nat) (folds : List (ReconcileSource × String)) (storage : σ) :
    conflictAt (writeFolds codec (.attach agent) now clock reading folds storage).2 root name =
      conflictAt storage root name := by
  induction folds generalizing reading storage with
  | nil => rfl
  | cons fold folds ih =>
    obtain ⟨source, body⟩ := fold
    have first := @conflictAt_fold σ _ _ storage codec agent root name source body now (clock reading)
    unfold writeFolds
    split
    · rename_i recorded
      rw [recorded] at first
      exact first
    · rename_i path after recorded
      rw [recorded] at first
      have rest := ih (reading + 1) after
      split
      · rename_i ended
        rw [ended] at rest
        exact rest.trans first
      · rename_i ended
        rw [ended] at rest
        exact rest.trans first

omit [LawfulStorage σ] in
theorem writeConflict_cases {fs : AgentFs} {rfc3339 : DateTime → String} {record : ConflictRecord} {after : σ}
    {result : Except FsError ConflictId} (ran : fs.writeConflict rfc3339 record storage = (result, after)) :
    after = storage ∨ 2 ≤ record.alternatives.length ∧ ∃ outcome,
      AgentStorage.putIfAbsent storage (fs.conflictKey record.id) (.json (record.toJson rfc3339)) = .ok (outcome, after) := by
  unfold AgentFs.writeConflict at ran
  split at ran
  · cases ran
    exact .inl rfl
  · rename_i several
    simp only at ran
    split at ran
    · cases ran
      exact .inl rfl
    · rename_i outcome final wrote
      cases ran
      exact .inr ⟨by omega, outcome, raw_ok wrote⟩

omit [LawfulStorage σ] in
/-- A conflict that comes with children's outputs goes through the writer, or nowhere. -/
theorem reconcileConflict_cases {codec : Codec} {fs : AgentFs} {now : DateTime} {conflict : Option ConflictRecordIntent}
    {after : σ} {result : Except ReconcileError (Option ConflictId)}
    (ran : writeConflict codec fs now conflict storage = (result, after)) :
    after = storage ∨ ∃ intent, conflict = some intent ∧
      after = (fs.writeConflict codec.rfc3339 (.new now intent) storage).2 := by
  unfold writeConflict at ran
  split at ran
  · cases ran
    exact .inl rfl
  · rename_i intent
    split at ran
    · cases ran
      exact .inl rfl
    · split at ran
      · rename_i written
        cases ran
        exact .inr ⟨intent, rfl, by rw [written]⟩
      · rename_i written
        cases ran
        exact .inr ⟨intent, rfl, by rw [written]⟩

/-- The file of a record that was made by its constructor is one plain name. -/
theorem conflictKey_name (alternatives : List ConflictAlternative) (resolution : Option ConflictResolution) :
    ∃ name : Name, name.text = (ConflictId.new alternatives resolution).hex ++ ".json" := by
  unfold ConflictId.new
  obtain ⟨name, text, -⟩ := word_name (wordChar_hexDigits (Sha256.digest _))
  exact ⟨name, text⟩

/-- Every file among the conflicts is a well-formed record under its own id. -/
def WellFiled (rfc3339 : DateTime → String) (storage : σ) : Prop :=
  ∀ root name content, conflictAt storage root name = some content → ∃ record : ConflictRecord,
    content = .json (record.toJson rfc3339) ∧ name.text = record.id.hex ++ ".json" ∧ record.WellFormed

theorem WellFiled.congr {rfc3339 : DateTime → String} {after : σ} (filed : WellFiled rfc3339 storage)
    (same : ∀ root name, conflictAt after root name = conflictAt storage root name) : WellFiled rfc3339 after := by
  intro root name content found
  rw [same] at found
  exact filed root name content found

theorem WellFiled.write {rfc3339 : DateTime → String} (filed : WellFiled rfc3339 storage) (agent : String)
    {record : ConflictRecord} (formed : 2 ≤ record.alternatives.length → record.WellFormed) :
    WellFiled rfc3339 ((AgentFs.attach agent).writeConflict rfc3339 record storage).2 := by
  generalize ran : (AgentFs.attach agent).writeConflict rfc3339 record storage = ended
  obtain ⟨result, after⟩ := ended
  rcases writeConflict_cases ran with rfl | ⟨several, outcome, wrote⟩
  · exact filed
  · cases outcome with
    | existed =>
      apply filed.congr
      intro root name
      unfold conflictAt viewAt
      rw [putIfAbsent_existed storage after _ _ wrote]
    | created =>
      have sets : Sets storage after _ (some (.json (record.toJson rfc3339))) :=
        (putIfAbsent_created storage after _ _ wrote).2.2
      obtain ⟨file, text⟩ := conflictKey_name record.alternatives record.resolution
      have path : keyPath ((AgentFs.attach agent).conflictKey record.id) =
          keyPath ((AgentFs.attach agent).key "") ++ [conflictsName] ++ [file] := by
        rw [← keyPath_conflict, text, (formed several).id]
        unfold AgentFs.conflictKey
        rw [String.append_assoc]
      intro root name content found
      unfold conflictAt viewAt at found
      rw [sets] at found
      split at found
      · rename_i here
        have same := path_of_place _ _ here
        rw [keyPath_conflict, path] at same
        refine ⟨record, (Option.some.inj found).symm, ?_, formed several⟩
        rw [(List.cons.inj (List.append_inj' same rfl).2).1, text, (formed several).id]
      · exact filed root name content found

theorem WellFiled.reconcile {codec : Codec} (filed : WellFiled codec.rfc3339 storage) {input : ReconcileChildrenInput}
    (bounded : ∀ intent, input.conflict = some intent → 2 ≤ intent.alternatives.length → intent.InBounds) (now : DateTime)
    (clock : Clock) : WellFiled codec.rfc3339 (reconcileChildrenImpl codec input now clock storage).2 := by
  unfold reconcileChildrenImpl
  simp only
  split
  · exact filed
  · rename_i outputs read
    have folds : WellFiled codec.rfc3339 (writeFolds codec (.openForAgent input.parentGraphId input.parentAgentId) now clock 0
        outputs storage).2 := filed.congr fun root name => conflictAt_writeFolds codec 0 outputs storage
    split
    · rename_i folded
      rw [folded] at folds
      exact folds
    · rename_i paths middle folded
      rw [folded] at folds
      have ended : ∀ {result : Except ReconcileError (Option ConflictId)} {final : σ},
          writeConflict codec (.openForAgent input.parentGraphId input.parentAgentId) now input.conflict middle =
            (result, final) → WellFiled codec.rfc3339 final := by
        intro result final ran
        rcases reconcileConflict_cases ran with rfl | ⟨intent, asked, rfl⟩
        · exact folds
        · exact folds.write _ fun several => ConflictRecord.new_wellFormed now several (bounded intent asked several)
      split
      · rename_i ran
        exact ended ran
      · rename_i ran
        exact ended ran

end Conflicts

section Runs

variable {σ : Type} [AgentStorage σ] [LawfulStorage σ]

/-- The two calls that file a conflict, on any agent's files. -/
inductive ConflictCall where
  | reconcileChildren (input : ReconcileChildrenInput) (now : DateTime) (clock : Clock)
  | writeConflict (root : String) (record : ConflictRecord)

def conflictCalls (codec : Codec) : Machine σ ConflictCall Unit :=
  ⟨fun storage call =>
    match call with
    | .reconcileChildren input now clock => some ((reconcileChildrenImpl codec input now clock storage).2, [])
    | .writeConflict root record => some (((AgentFs.attach root).writeConflict codec.rfc3339 record storage).2, [])⟩

/-- The call's conflict, where it has alternatives enough to be filed, comes from the
constructor and chooses one of them. -/
def ConflictCall.InBounds : ConflictCall → Prop
  | .reconcileChildren input _ _ => ∀ intent ∈ input.conflict, 2 ≤ intent.alternatives.length → intent.InBounds
  | .writeConflict _ record => 2 ≤ record.alternatives.length →
    record = .new record.timestamp record.intent ∧ record.intent.InBounds

/-- Nobody has a conflict on file. -/
def Unreconciled (storage : σ) : Prop := ∀ root name, conflictAt storage root name = none

theorem WellFiled.step {codec : Codec} {storage next : σ} {call : ConflictCall} {outputs : List Unit}
    (filed : WellFiled codec.rfc3339 storage) (bounded : call.InBounds)
    (stepped : (conflictCalls codec).step storage call = some (next, outputs)) : WellFiled codec.rfc3339 next := by
  cases call with
  | reconcileChildren input now clock =>
    cases stepped
    exact filed.reconcile (fun intent asked => bounded intent asked) now clock
  | writeConflict root record =>
    cases stepped
    apply filed.write
    intro several
    obtain ⟨made, chosen⟩ := bounded several
    rw [made]
    exact ConflictRecord.new_wellFormed record.timestamp several chosen

/-- As long as no call brings a choice that is out of bounds, every record on file is well
formed, and is filed under its own id. -/
theorem conflicts_well_formed {codec : Codec} {start final : σ} {calls : List ConflictCall} {outputs : List Unit}
    (unreconciled : Unreconciled start) (bounded : ∀ call ∈ calls, call.InBounds)
    (ran : (conflictCalls codec).run start calls = some (final, outputs)) (root : String) (name : Name)
    (record : ConflictRecord) (found : conflictAt final root name = some (.json (record.toJson codec.rfc3339))) :
    record.WellFormed ∧ name.text = record.id.hex ++ ".json" := by
  have filed : WellFiled codec.rfc3339 final := by
    refine (conflictCalls codec).run_invariant_along (WellFiled codec.rfc3339) ?_
      (fun state call next more filed met stepped => filed.step met stepped)
      ((conflictCalls codec).along_of_mem (fun call member _ => bounded call member) start) ran
    intro root name content found
    rw [unreconciled] at found
    cases found
  obtain ⟨other, same, text, formed⟩ := filed root name _ found
  obtain ⟨ids, kinds, intents⟩ := conflictRecord_toJson_inj (Content.json.inj same)
  obtain ⟨alternatives, resolution⟩ := ConflictRecordIntent.mk.inj intents
  rw [ids]
  exact ⟨⟨by rw [alternatives]; exact formed.several, by rw [kinds, resolution]; exact formed.kind,
    by rw [ids, alternatives, resolution]; exact formed.id, by rw [alternatives, resolution]; exact formed.chosen⟩, text⟩

end Runs

section Examples

private def unsettled : ReconcileChildrenInput := ⟨⟨⟨0⟩⟩, ⟨⟨1⟩⟩, [], none⟩

private def disputing : AgentFs := .openForAgent unsettled.parentGraphId unsettled.parentAgentId

private def dispute (chosen : Nat) : ConflictRecordIntent where
  alternatives := [⟨⟨"writer", ⟨⟨2⟩⟩⟩, ⟨"07"⟩, "It rained."⟩, ⟨⟨"reader", ⟨⟨3⟩⟩⟩, ⟨"1c"⟩, "It was dry."⟩]
  resolution := some ⟨chosen, "The later report."⟩

/-- A conflict without sources is filed into an empty store whatever it chooses. -/
private theorem dispute_filed (codec : Codec) (chosen : Nat) :
    ∃ (final : MemoryStorage) (root : String) (name : Name),
      (conflictCalls codec).run (⟨∅⟩ : MemoryStorage)
          [.reconcileChildren { unsettled with conflict := some (dispute chosen) } ⟨0⟩ fun _ => ⟨0⟩] = some (final, []) ∧
        conflictAt final root name = some (.json ((ConflictRecord.new ⟨0⟩ (dispute chosen)).toJson codec.rfc3339)) := by
  obtain ⟨name, text⟩ := conflictKey_name (dispute chosen).alternatives (dispute chosen).resolution
  refine ⟨_, disputing.storagePrefix, name, rfl, ?_⟩
  have put : ∀ key value, AgentStorage.putIfAbsent (⟨∅⟩ : MemoryStorage) key value =
      .ok (.created, ⟨(∅ : AList fun _ : String => Content).insert key value⟩) := fun _ _ => rfl
  have written : disputing.writeConflict codec.rfc3339 (.new ⟨0⟩ (dispute chosen)) (⟨∅⟩ : MemoryStorage) =
      (.ok (ConflictRecord.new ⟨0⟩ (dispute chosen)).id, ⟨(∅ : AList fun _ : String => Content).insert
        (disputing.conflictKey (ConflictRecord.new ⟨0⟩ (dispute chosen)).id)
        (.json ((ConflictRecord.new ⟨0⟩ (dispute chosen)).toJson codec.rfc3339))⟩) := by
    unfold AgentFs.writeConflict
    rw [if_neg (show ¬ (ConflictRecord.new ⟨0⟩ (dispute chosen)).alternatives.length < 2 from Nat.lt_irrefl 2)]
    simp only [put, AgentFs.stored]
  have whole : (reconcileChildrenImpl codec { unsettled with conflict := some (dispute chosen) } ⟨0⟩ (fun _ => ⟨0⟩)
      (⟨∅⟩ : MemoryStorage)).2 = (disputing.writeConflict codec.rfc3339 (.new ⟨0⟩ (dispute chosen)) (⟨∅⟩ : MemoryStorage)).2 := by
    unfold reconcileChildrenImpl writeConflict
    simp only [unsettled, readChildOutputs, writeFolds, if_neg (show ¬ (dispute chosen).alternatives.length < 2 from Nat.lt_irrefl 2)]
    rw [show AgentFs.openForAgent ⟨⟨0⟩⟩ ⟨⟨1⟩⟩ = disputing from rfl, written]
  rw [whole, written]
  unfold conflictAt
  rw [show AgentFs.attach disputing.storagePrefix = disputing from attach_attach _, text, ← String.append_assoc]
  exact AList.lookup_insert _

private def undated : Codec := listedCodec [] []

private theorem unreconciled_empty : Unreconciled (⟨∅⟩ : MemoryStorage) := fun _ _ => rfl

/-- Two alternatives, of which the one at index two is said to be right. -/
theorem stray_choice_filed : ∃ (final : MemoryStorage) (root : String) (name : Name) (record : ConflictRecord),
    Unreconciled (⟨∅⟩ : MemoryStorage) ∧
      (conflictCalls undated).run (⟨∅⟩ : MemoryStorage)
        [.reconcileChildren { unsettled with conflict := some (dispute 2) } ⟨0⟩ fun _ => ⟨0⟩] = some (final, []) ∧
      conflictAt final root name = some (.json (record.toJson undated.rfc3339)) ∧ ¬ record.WellFormed := by
  obtain ⟨final, root, name, ran, found⟩ := dispute_filed undated 2
  refine ⟨final, root, name, _, unreconciled_empty, ran, found, ?_⟩
  intro formed
  exact absurd (formed.chosen ⟨2, "The later report."⟩ rfl) (Nat.lt_irrefl 2)

theorem conflicts_well_formed_resolved : ∃ (final : MemoryStorage) (root : String) (name : Name) (record : ConflictRecord),
    conflictAt final root name = some (.json (record.toJson undated.rfc3339)) ∧ record.WellFormed ∧
      name.text = record.id.hex ++ ".json" := by
  obtain ⟨final, root, name, ran, found⟩ := dispute_filed undated 1
  refine ⟨final, root, name, _, found, conflicts_well_formed unreconciled_empty ?_ ran root name _ found⟩
  intro call member
  obtain rfl := List.mem_singleton.mp member
  intro intent asked _
  cases asked
  decide

end Examples

end Coral.Proofs

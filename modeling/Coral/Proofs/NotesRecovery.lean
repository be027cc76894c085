import Coral.Proofs.TailRebuild
import Coral.Proofs.NotesRecency

/-! The notes after a stop. A note without an entry is found when the agent's files are opened
again; an entry without a note is found only if a note without an entry is there too. -/

namespace Coral.Proofs
open Coral.Library LawfulStorage

/-- No file has two entries. -/
def Distinct (tail : TailObject) : Prop := (tail.entries.map (·.filename)).Nodup

/-- Under `notes/` there are notes and the sidecar, which can be read. -/
structure Formed {σ : Type} [AgentStorage σ] [LawfulStorage σ] (fs : AgentFs) (storage : σ) : Prop where
  sidecar : ∀ content, viewAt storage (fs.key NOTES_TAIL_SUFFIX) = some content →
    ∃ tail, content = .tail tail ∧ Distinct tail
  clean : ∀ key, keyPath (fs.key "notes") <+: keyPath key → viewAt storage key ≠ none →
    (place key : Place σ) = place (fs.key NOTES_TAIL_SUFFIX) ∨
      ∃ path, path ≠ [] ∧ isNoteRecord (joinPath path) = true ∧ (place key : Place σ) = place (noteKey fs path)

section Formed

variable {σ : Type} [AgentStorage σ] [LawfulStorage σ] {fs : AgentFs} {storage after : σ}

/-- No file is below `notes/`. -/
def Blank (fs : AgentFs) (storage : σ) : Prop :=
  ∀ key, keyPath (fs.key "notes") <+: keyPath key → viewAt storage key = none

theorem Blank.formed (blank : Blank fs storage) : Formed fs storage where
  sidecar content found := by
    obtain ⟨name, -, path⟩ := keyPath_sidecar fs
    rw [blank _ (path ▸ List.prefix_append _ _)] at found
    cases found
  clean key below there := (there (blank key below)).elim

theorem distinct_appended {tail : TailObject} (distinct : Distinct tail) (filename : String) (now : DateTime) :
    Distinct (appended tail filename now) := by
  unfold Distinct appended
  rw [List.map_take]
  refine List.Nodup.sublist (List.take_sublist _ _) ?_
  rw [List.map_cons, List.nodup_cons]
  refine ⟨?_, distinct.sublist (List.filter_sublist.map _)⟩
  intro member
  obtain ⟨entry, kept, same⟩ := List.mem_map.mp member
  have other := (List.mem_filter.mp kept).2
  rw [bne_iff_ne] at other
  exact other same

theorem distinct_removed {tail : TailObject} (distinct : Distinct tail) (filename : String) :
    Distinct (removed tail filename) := distinct.sublist (List.filter_sublist.map _)

theorem Formed.tail (formed : Formed fs storage) : Distinct (tailAt storage (fs.key NOTES_TAIL_SUFFIX)) := by
  unfold tailAt
  cases found : viewAt storage (fs.key NOTES_TAIL_SUFFIX) with
  | none => exact List.nodup_nil
  | some content =>
    obtain ⟨tail, rfl, distinct⟩ := formed.sidecar content found
    exact distinct

private theorem viewAt_set {key : String} {value : Option Content} (sets : Sets storage after key value) (other : String) :
    viewAt after other = viewAt storage other ∨ (place other : Place σ) = place key ∧ viewAt after other = value := by
  unfold viewAt
  rw [sets]
  split
  · rename_i same
    exact .inr ⟨same, rfl⟩
  · exact .inl rfl

/-- A write keeps the directory formed when it writes a note or a sound sidecar. -/
theorem Formed.set (formed : Formed fs storage) {key : String} {value : Option Content}
    (sets : Sets storage after key value)
    (sound : keyPath key = keyPath (fs.key NOTES_TAIL_SUFFIX) → ∀ content, value = some content →
      ∃ tail, content = .tail tail ∧ Distinct tail)
    (allowed : keyPath (fs.key "notes") <+: keyPath key → value ≠ none →
      (place key : Place σ) = place (fs.key NOTES_TAIL_SUFFIX) ∨
        ∃ path, path ≠ [] ∧ isNoteRecord (joinPath path) = true ∧ (place key : Place σ) = place (noteKey fs path)) :
    Formed fs after where
  sidecar content found := by
    rcases viewAt_set sets (fs.key NOTES_TAIL_SUFFIX) with same | ⟨here, now⟩
    · exact formed.sidecar content (same ▸ found)
    · exact sound (path_of_place _ _ here).symm content (now ▸ found)
  clean other below there := by
    rcases viewAt_set sets other with same | ⟨here, now⟩
    · exact formed.clean other below (same ▸ there)
    · rw [here]
      exact allowed (path_of_place _ _ here ▸ below) (now ▸ there)

theorem Formed.note (formed : Formed fs storage) {path : List Name} (proper : path ≠ [])
    (record : isNoteRecord (joinPath path) = true) {value : Option Content}
    (sets : Sets storage after (noteKey fs path) value) : Formed fs after :=
  formed.set sets (fun same => (noteKey_ne_sidecar record same).elim) fun _ _ => .inr ⟨path, proper, record, rfl⟩

theorem Formed.tailed (formed : Formed fs storage) {tail : TailObject} (distinct : Distinct tail)
    (sets : Sets storage after (fs.key NOTES_TAIL_SUFFIX) (some (.tail tail))) : Formed fs after := by
  refine formed.set sets ?_ ?_
  · intro _ content same
    cases same
    exact ⟨tail, rfl, distinct⟩
  · exact fun _ _ => .inl rfl

theorem Formed.outside (formed : Formed fs storage) (attached : Attached fs) {name : Name} {path : String} {rest : List Name}
    (other : name ≠ notesName) (headed : keyPath path = name :: rest) {value : Option Content}
    (sets : Sets storage after (fs.key path) value) : Formed fs after := by
  have apart : ∀ more : List Name, keyPath (fs.key path) ≠ keyPath (fs.key "notes") ++ more := by
    intro more same
    rw [keyPath_key attached, keyPath_key attached "notes", headed, List.append_assoc] at same
    exact other (List.cons.inj (List.append_cancel_left same)).1
  obtain ⟨sidecar, -, below⟩ := keyPath_sidecar fs
  refine formed.set sets (fun same => (apart [sidecar] (same.trans below)).elim) ?_
  rintro ⟨more, same⟩
  exact (apart more same.symm).elim

omit [AgentStorage σ] [LawfulStorage σ] in
private theorem settle_keeps {holds : σ → Prop} {middle : σ} {result : Except FsError σ} (before : holds middle)
    (kept : ∀ after, result = .ok after → holds after) : holds (AgentFs.settle middle result).2 := by
  cases result with
  | error error => exact before
  | ok after => exact kept after rfl

/-- Whether or not the operation is cut short. -/
theorem Formed.executeOp (formed : Formed fs storage) {path : List Name} (proper : path ≠ [])
    (record : isNoteRecord (joinPath path) = true) (now : DateTime) (op : FsOp) : Formed fs (fs.executeOp now (noteKey fs path) op storage).2 := by
  unfold AgentFs.executeOp
  rw [stripStart_noteKey]
  cases op with
  | writeFile raw content =>
    simp only
    split
    · exact formed
    · rename_i middle written
      have noted := formed.note proper record (put_spec written).2
      apply settle_keeps noted
      intro after followed
      exact noted.tailed (distinct_appended noted.tail _ _) (appendToTail_ok followed).2
  | deleteFile raw =>
    simp only
    split
    · exact formed
    · rename_i middle deleted
      have erased := formed.note proper record (delete_spec deleted).1
      apply settle_keeps erased
      intro after followed
      rcases (removeFromTail_ok followed).2 with ⟨rfl, -⟩ | sets
      · exact erased
      · exact erased.tailed (distinct_removed erased.tail _) sets

theorem Formed.applyOps (formed : Formed fs storage) (clock : Clock) (ops : List FsOp) :
    Formed fs (fs.applyOps clock ops storage).2 := by
  have each : ∀ (planned : List (String × FsOp)) (reading : Nat) (storage : σ), Formed fs storage →
      (∀ step ∈ planned, ∃ path, path ≠ [] ∧ isNoteRecord (joinPath path) = true ∧ step.1 = noteKey fs path) →
        Formed fs (fs.executeOps clock reading planned storage).2 := by
    intro planned
    induction planned with
    | nil => exact fun _ _ formed _ => formed
    | cons step planned ih =>
      intro reading storage formed named
      obtain ⟨key, op⟩ := step
      obtain ⟨path, proper, record, same⟩ := named (key, op) List.mem_cons_self
      have next := formed.executeOp proper record (clock reading) op
      rw [← same] at next
      unfold AgentFs.executeOps
      split
      · rename_i after executed
        rw [executed] at next
        exact ih (reading + 1) after next fun step member => named step (List.mem_cons_of_mem _ member)
      · rename_i error after executed
        rw [executed] at next
        exact next
  unfold AgentFs.applyOps
  split
  · rename_i planned plan
    apply each planned 0 storage formed
    intro step member
    obtain ⟨op, -, path, named, rfl⟩ := forall₂_mem_right (planOps_ok plan) member
    obtain ⟨proper, record⟩ := isNoteRecord_notePath named
    exact ⟨path, proper, record, rfl⟩
  · exact formed

theorem relpath_evidence (slugSeed : String) (id : EvidenceId) :
    ∃ rest, keyPath (evidenceRelpath slugSeed id) = evidenceName :: rest := by
  have below : ∀ rest : String, keyPath ("evidence/" ++ rest) = evidenceName :: keyPath rest := by
    intro rest
    rw [show "evidence/" = "evidence" ++ "/" from rfl, keyPath_append]
    rfl
  unfold evidenceRelpath
  simp only
  split
  · rw [String.append_assoc, below]
    exact ⟨_, rfl⟩
  · simp only [String.append_assoc, below]
    exact ⟨_, rfl⟩

theorem Formed.recordEvidence (formed : Formed fs storage) (attached : Attached fs) (now : DateTime)
    (record : EvidenceRecord) (slugSeed : String) :
    Formed fs (fs.recordEvidence now record slugSeed storage).2 := by
  obtain ⟨rest, headed⟩ := relpath_evidence slugSeed record.id
  simp only [AgentFs.recordEvidence]
  generalize evidenceRelpath slugSeed record.id = relpath at headed ⊢
  cases wrote : AgentStorage.putIfAbsent storage (fs.key relpath) (.evidence record) with
  | error source => exact formed
  | ok result =>
    obtain ⟨outcome, middle⟩ := result
    cases outcome with
    | existed =>
      change Formed fs middle
      have same := putIfAbsent_existed storage middle _ _ wrote
      refine ⟨?_, ?_⟩
      · intro content found
        rw [viewAt, same] at found
        exact formed.sidecar content found
      · intro key below there
        rw [viewAt, same] at there
        exact formed.clean key below there
    | created =>
      have recorded : Formed fs middle :=
        formed.outside attached (by decide) headed (putIfAbsent_created storage middle _ _ wrote).2.2
      simp only [AgentFs.stored]
      split
      · exact recorded
      · rename_i final followed
        exact recorded.outside attached (show evidenceName ≠ notesName by decide)
          (show keyPath EVIDENCE_TAIL_SUFFIX = evidenceName :: [tailName] from rfl) (appendToTail_ok followed).2

theorem length_greatest (names : List String) : (Tailed.greatest names).length = min names.length TAIL_K := by
  unfold Tailed.greatest
  simp only [List.length_reverse, List.length_drop, List.length_insertionSort]
  omega

theorem nodup_greatest {names : List String} (distinct : names.Nodup) : (Tailed.greatest names).Nodup := by
  unfold Tailed.greatest
  rw [List.nodup_reverse]
  exact ((List.perm_insertionSort _ names).nodup_iff.mpr distinct).sublist (List.drop_sublist _ _)

theorem Formed.reconciled (formed : Formed fs storage) {now : DateTime}
    (reconciled : fs.reconcileTail NOTES_TAIL_SUFFIX "notes/" isNoteRecord now storage = .ok after) : Formed fs after := by
  obtain ⟨keys, listed, outcome⟩ := reconcileTail_ok notesDir reconciled
  rcases outcome with ⟨-, rfl⟩ | ⟨-, tail, written, names⟩
  · exact formed
  · refine formed.tailed ?_ (put_spec written).2
    unfold Distinct
    rw [names]
    exact nodup_greatest (nodup_names (nodup_listAll listed))

theorem Formed.reopened (formed : Formed fs storage) (attached : Attached fs) {mandate : Mandate} {clock : Clock}
    {opened : AgentFs} (same : AgentFs.attach fs.storagePrefix = fs)
    (reopened : AgentFs.newWithStorage fs.storagePrefix mandate clock storage = .ok (opened, after)) : Formed fs after := by
  obtain ⟨rfl, first, second, mandated, evidence, notes⟩ := newWithStorage_ok reopened
  rw [same] at mandated evidence notes
  have opening : Formed fs first := by
    rcases mandated with rfl | written
    · exact formed
    · exact formed.outside attached (show mandateName ≠ notesName by decide) (show keyPath "mandate.md" = mandateName :: [] from rfl)
        (put_spec written).2
  obtain ⟨_, -, outcome⟩ := reconcileTail_ok evidenceDir evidence
  rcases outcome with ⟨-, rfl⟩ | ⟨-, tail, written, -⟩
  · exact opening.reconciled notes
  · have recorded := opening.outside attached (show evidenceName ≠ notesName by decide)
      (show keyPath EVIDENCE_TAIL_SUFFIX = evidenceName :: [tailName] from rfl) (put_spec written).2
    exact recorded.reconciled notes

omit [AgentStorage σ] [LawfulStorage σ] in
theorem outlived_eq {α : Type} {result : Except FsError α × Stopping σ} {next : Stopping σ}
    (outlives : outlived result = some next) : next = result.2 := by
  obtain ⟨answer, after⟩ := result
  unfold outlived at outlives
  split at outlives
  · rename_i same
    cases same
    exact (Option.some.inj outlives).symm
  · rename_i same
    cases same
    split at outlives
    · exact (Option.some.inj outlives).symm
    · cases outlives

theorem Formed.attempt {raw : String} {store next : Stopping σ} {attempt : Attempt} {openings : List (Opening σ)}
    (formed : Formed (.attach raw) store)
    (stepped : (attempts (.attach raw)).step store attempt = some (next, openings)) : Formed (.attach raw) next := by
  have attached := attached_attach raw
  have alive : Formed (.attach raw) (attempt.alive store) := ⟨formed.sidecar, formed.clean⟩
  obtain ⟨call, clock, writes⟩ := attempt
  simp only [attempts] at stepped
  cases call with
  | applyOps ops =>
    obtain ⟨after, outlives, same⟩ := Option.map_eq_some_iff.mp stepped
    cases same
    rw [outlived_eq outlives]
    exact alive.applyOps clock ops
  | recordEvidence record slugSeed =>
    obtain ⟨after, outlives, same⟩ := Option.map_eq_some_iff.mp stepped
    cases same
    rw [outlived_eq outlives]
    exact alive.recordEvidence attached (clock 0) record slugSeed
  | reopen mandate =>
    simp only at stepped
    split at stepped
    · rename_i opened after reopened
      cases stepped
      exact alive.reopened attached (attach_attach raw) reopened
    · cases stepped

end Formed

section Windows

/-- What a window has to say when these are the notes: it names notes alone, and with what
it leaves out it counts every one. -/
structure Accounts (notes : List (List Name)) (window : RecentWindow) : Prop where
  named : ∀ name ∈ window.filenames, name ∈ notes.map joinPath
  distinct : window.filenames.Nodup
  counted : match window.more with
    | .none => notes.length = window.filenames.length
    | .exactly left => notes.length = window.filenames.length + left
    | .atLeast left => window.filenames.length + left ≤ notes.length

def SameNames (names : List String) (notes : List (List Name)) : Prop := ∀ name, name ∈ names ↔ name ∈ notes.map joinPath

variable {names shown : List String} {notes : List (List Name)}

theorem sameNames_iff_perm (distinct : names.Nodup) (apart : notes.Nodup) :
    SameNames names notes ↔ names.Perm (notes.map joinPath) :=
  (List.perm_ext_iff_of_nodup distinct (apart.map joinPath_injective)).symm

/-- All windows on a tail are right exactly when it has the notes and nothing else. -/
theorem accounts_iff (distinct : shown.Nodup) (apart : notes.Nodup) (few : notes.length < TAIL_K) :
    (∀ n, 1 ≤ n → Accounts notes (shownWindow shown n)) ↔ SameNames shown notes := by
  rw [sameNames_iff_perm distinct apart]
  constructor
  · intro accounts
    have whole := accounts (shown.length + 1) (by omega)
    have all : shown.take (shown.length + 1) = shown := List.take_of_length_le (by omega)
    have counted := whole.counted
    have named := whole.named
    simp only [shownWindow, all] at counted named
    have length : notes.length = shown.length := by
      by_cases full : shown.length = TAIL_K
      · rw [if_pos full] at counted
        simp only at counted
        omega
      · rw [if_neg full, if_pos (by omega)] at counted
        exact counted
    refine (List.subperm_of_subset distinct named).perm_of_length_le ?_
    rw [List.length_map]
    omega
  · intro same n positive
    have length := same.length_eq
    rw [List.length_map] at length
    refine ⟨?_, distinct.sublist (List.take_sublist _ _), ?_⟩
    · intro name member
      exact same.mem_iff.mp (List.mem_of_mem_take member)
    · have open_ : shown.length ≠ TAIL_K := by omega
      simp only [shownWindow, if_neg open_, List.length_take]
      by_cases all : shown.length ≤ n
      · rw [if_pos all]
        simp only
        omega
      · rw [if_neg all]
        simp only
        omega

/-- A tail that is rebuilt has the names on disk, up to its bound. -/
theorem sameNames_greatest (distinct : names.Nodup) (apart : notes.Nodup) (few : notes.length < TAIL_K) :
    SameNames (Tailed.greatest names) notes ↔ SameNames names notes := by
  have short : names.length ≤ TAIL_K → (Tailed.greatest names).Perm names := by
    intro fits
    unfold Tailed.greatest
    simp only [List.length_insertionSort]
    rw [show names.length - TAIL_K = 0 by omega, List.drop_zero]
    exact (List.reverse_perm _).trans (List.perm_insertionSort _ names)
  rw [sameNames_iff_perm (nodup_greatest distinct) apart, sameNames_iff_perm distinct apart]
  constructor
  · intro same
    have length := same.length_eq
    rw [length_greatest, List.length_map] at length
    exact (short (by omega)).symm.trans same
  · intro same
    have length := same.length_eq
    rw [List.length_map] at length
    exact (short (by omega)).trans same

end Windows

section Recovery

variable {σ : Type} [AgentStorage σ] [LawfulStorage σ] {fs : AgentFs} {storage after : σ}

/-- The notes that there are. -/
structure Existing (fs : AgentFs) (storage : σ) (notes : List (List Name)) : Prop where
  distinct : notes.Nodup
  mem_iff : ∀ path, path ∈ notes ↔
    path ≠ [] ∧ isNoteRecord (joinPath path) = true ∧ (viewAt storage (noteKey fs path)).isSome = true

/-- Where the sidecar is left alone it can be read and has the notes; else the listing has them. -/
def Healed (fs : AgentFs) (storage : σ) (notes : List (List Name)) : Prop :=
  ∀ keys, AgentFs.listAll storage (fs.key "notes/") = .ok keys →
    (notesDir.Current fs storage keys ∧ (∃ found, AgentFs.get storage (fs.key NOTES_TAIL_SUFFIX) = .ok found) ∧
      SameNames (notesDir.tracked fs storage) notes) ∨
    (¬ notesDir.Current fs storage keys ∧ SameNames (notesDir.names fs keys) notes)

omit [AgentStorage σ] [LawfulStorage σ] in
private theorem not_record_of_ending {base rest : String} (ending : rest = base ++ "/" ++ "_tail.json") :
    isNoteRecord (joinPath (keyPath rest)) = false := by
  have path : keyPath rest = keyPath base ++ [tailName] := by
    rw [ending, keyPath_append]
    rfl
  rw [path]
  by_cases top : keyPath base = []
  · rw [top]
    rfl
  · have joined : joinPath (keyPath base ++ [tailName]) = joinPath (keyPath base) ++ "/_tail.json" := by
      unfold joinPath
      rw [List.map_append, String.intercalate_append_of_ne_nil (by simpa using top) (by simp), String.append_assoc]
      rfl
    rw [joined]
    have ends : endsWithText (joinPath (keyPath base) ++ "/_tail.json") "/_tail.json" = true := by
      unfold endsWithText
      rw [String.toList_append]
      exact List.isSuffixOf_iff_suffix.mpr (List.suffix_append _ _)
    unfold isNoteRecord
    rw [ends]
    simp

/-- Where no note is listed and no sidecar is there, nothing at all is. -/
theorem Formed.listDir_empty (formed : Formed fs storage) {keys : List String}
    (listed : AgentFs.listAll storage (fs.key "notes/") = .ok keys) (missing : viewAt storage (fs.key NOTES_TAIL_SUFFIX) = none)
    (none_listed : notesDir.names fs keys = []) : fs.listDir storage "notes/" = .ok [] := by
  have hidden : ∀ key ∈ keys, ∀ rest, stripStart key (fs.key "notes/") = some rest → rest = "_tail.json" := by
    intro key member rest stripped
    by_contra other
    have unrecorded : isNoteRecord rest = false := by
      rw [Bool.eq_false_iff]
      intro record
      have named : rest ∈ notesDir.names fs keys := List.mem_filter.mpr ⟨List.mem_filterMap.mpr ⟨key, member, stripped⟩, record⟩
      rw [none_listed] at named
      cases named
    have ending : endsWithText rest "/_tail.json" = true := by
      simp only [isNoteRecord, bne_iff_ne.mpr other, Bool.true_and, Bool.not_eq_false'] at unrecorded
      exact unrecorded
    obtain ⟨base, whole⟩ := List.isSuffixOf_iff_suffix.mp ending
    have split : rest = String.ofList base ++ "/" ++ "_tail.json" := by
      apply String.toList_inj.mp
      rw [← whole, String.append_assoc, String.toList_append]
      exact congrArg (· ++ "/_tail.json".toList) String.toList_ofList.symm
    have there : viewAt storage key ≠ none := by
      obtain ⟨page, found, same⟩ := bind_ok listed
      cases same
      cases list : AgentStorage.list storage (fs.key "notes/") none usizeMax with
      | error source =>
        rw [list] at found
        cases found
      | ok other =>
        rw [list] at found
        cases found
        exact Option.isSome_iff_ne_none.mp (list_ok storage _ none usizeMax page list key member).2
    have below : keyPath key = keyPath (fs.key "notes") ++ keyPath rest := by
      rw [stripStart_eq stripped, show "notes/" = "notes" ++ "/" from rfl, key_append, keyPath_append]
    rcases formed.clean key (below ▸ List.prefix_append _ _) there with sidecar | ⟨path, -, record, same⟩
    · unfold viewAt at there missing
      rw [sidecar] at there
      exact there missing
    · have named := path_of_place _ _ same
      rw [below, keyPath_noteKey] at named
      rw [← List.append_cancel_left named, not_record_of_ending split] at record
      cases record
  unfold AgentFs.listDir
  rw [dirPrefix_notes]
  change (AgentFs.listAll storage (fs.key "notes/") >>= _) = _
  rw [listed]
  simp only [bind, Except.bind, pure, Except.pure]
  rw [List.filterMap_eq_nil_iff.mpr]
  · rfl
  · intro key member
    cases stripped : stripStart key (fs.key "notes/") with
    | none => rfl
    | some rest =>
      rw [hidden key member rest stripped]
      rfl

omit [LawfulStorage σ] in
private theorem windows_iff {shown : List String} {notes : List (List Name)}
    (answers : ∀ n, 1 ≤ n → fs.recentNoteFilenames storage n = .ok (shownWindow shown n)) (distinct : shown.Nodup)
    (apart : notes.Nodup) (few : notes.length < TAIL_K) :
    (∀ n, 1 ≤ n → ∃ window, fs.recentNoteFilenames storage n = .ok window ∧ Accounts notes window) ↔
      SameNames shown notes := by
  rw [← accounts_iff distinct apart few]
  apply forall_congr'
  intro n
  apply forall_congr'
  intro positive
  rw [answers n positive]
  constructor
  · intro ⟨window, same, accounts⟩
    cases same
    exact accounts
  · exact fun accounts => ⟨_, rfl, accounts⟩

private theorem tracked_eq {found : Option Content} (seen : viewAt storage (fs.key NOTES_TAIL_SUFFIX) = found) :
    notesDir.tracked fs storage = ((found.bind Content.asTail).getD {}).entries.map (·.filename) := by
  rw [← seen]
  rfl

/-- The windows of a store that has been opened again, whatever it was before. -/
theorem reopened_windows_iff {raw : String} {notes : List (List Name)} {mandate : Mandate} {clock : Clock}
    {opened : AgentFs} (formed : Formed (.attach raw) storage) (apart : notes.Nodup) (few : notes.length < TAIL_K)
    (reopened : AgentFs.newWithStorage (AgentFs.attach raw).storagePrefix mandate clock storage = .ok (opened, after)) :
    (∀ n, 1 ≤ n → ∃ window, (AgentFs.attach raw).recentNoteFilenames after n = .ok window ∧ Accounts notes window) ↔
      Healed (.attach raw) storage notes := by
  have whole : Formed (.attach raw) after := formed.reopened (attached_attach raw) (attach_attach raw) reopened
  obtain ⟨first, second, -, -, beside, reconciled, -⟩ := reopened_beside reopened
  obtain ⟨keys, listed, outcome⟩ := reconcileTail_ok notesDir reconciled
  have found : AgentFs.listAll storage ((AgentFs.attach raw).key "notes/") = .ok keys := beside.list.symm.trans listed
  have sidecar : viewAt second ((AgentFs.attach raw).key NOTES_TAIL_SUFFIX) =
      viewAt storage ((AgentFs.attach raw).key NOTES_TAIL_SUFFIX) := beside.view "_tail.json"
  have tracked : notesDir.tracked (.attach raw) second = notesDir.tracked (.attach raw) storage := by
    rw [tracked_eq sidecar, tracked_eq rfl]
  have current : notesDir.Current (.attach raw) second keys ↔ notesDir.Current (.attach raw) storage keys := by
    unfold Tailed.Current
    rw [tracked]
  have healed : Healed (.attach raw) storage notes ↔
      (notesDir.Current (.attach raw) storage keys ∧
        (∃ found, AgentFs.get storage ((AgentFs.attach raw).key NOTES_TAIL_SUFFIX) = .ok found) ∧
          SameNames (notesDir.tracked (.attach raw) storage) notes) ∨
        (¬ notesDir.Current (.attach raw) storage keys ∧ SameNames (notesDir.names (.attach raw) keys) notes) := by
    constructor
    · exact fun healed => healed keys found
    · intro here other again
      rw [found] at again
      cases again
      exact here
  rw [healed]
  rcases outcome with ⟨kept, rfl⟩ | ⟨stale, tail, written, names⟩
  · have kept' := current.mp kept
    rw [or_iff_left fun rebuilt => rebuilt.1 kept', and_iff_right kept', ← tracked]
    have read : AgentFs.get after ((AgentFs.attach raw).key NOTES_TAIL_SUFFIX) =
        AgentFs.get storage ((AgentFs.attach raw).key NOTES_TAIL_SUFFIX) := beside.get "_tail.json"
    cases got : AgentFs.get storage ((AgentFs.attach raw).key NOTES_TAIL_SUFFIX) with
    | error error =>
      rw [got] at read
      refine iff_of_false ?_ fun readable => by obtain ⟨_, ⟨⟩⟩ := readable.1
      intro answers
      obtain ⟨window, answered, -⟩ := answers 1 (Nat.le_refl 1)
      unfold AgentFs.recentNoteFilenames AgentFs.recentWindow at answered
      rw [if_neg (by omega), read] at answered
      cases answered
    | ok value =>
      rw [got] at read
      rw [and_iff_right ⟨value, rfl⟩]
      have seen := get_spec read
      cases value with
      | none =>
        have nothing : notesDir.tracked (.attach raw) after = [] := tracked_eq seen.symm
        have unlisted : notesDir.names (.attach raw) keys = [] := by
          rcases kept with empty | covered
          · exact empty
          · rw [nothing] at covered
            exact List.eq_nil_iff_forall_not_mem.mpr fun name member => absurd (covered name member) List.not_mem_nil
        rw [nothing]
        apply windows_iff _ List.nodup_nil apart few
        intro n positive
        exact recentNotes_of_none positive read (whole.listDir_empty listed seen.symm unlisted)
      | some content =>
        obtain ⟨tail, rfl, distinct⟩ := whole.sidecar content seen.symm
        have entries : notesDir.tracked (.attach raw) after = tail.entries.map (·.filename) := tracked_eq seen.symm
        rw [entries]
        apply windows_iff _ distinct apart few
        intro n positive
        exact recentNotes_of_tail positive read rfl
  · have stale' : ¬ notesDir.Current (.attach raw) storage keys := fun kept => stale (current.mpr kept)
    have distinct : (notesDir.names (.attach raw) keys).Nodup := nodup_names (nodup_listAll listed)
    rw [or_iff_right fun kept => stale' kept.1, and_iff_right stale', ← sameNames_greatest distinct apart few]
    apply windows_iff _ (nodup_greatest distinct) apart few
    intro n positive
    rw [← names]
    exact recentNotes_of_tail positive (put_spec written).1 rfl

theorem Existing.reopened {raw : String} {notes : List (List Name)} {mandate : Mandate} {clock : Clock}
    {opened : AgentFs} (existing : Existing (.attach raw) storage notes)
    (reopened : AgentFs.newWithStorage (AgentFs.attach raw).storagePrefix mandate clock storage = .ok (opened, after)) :
    Existing (.attach raw) after notes := by
  obtain ⟨_, second, -, -, beside, reconciled, -⟩ := reopened_beside reopened
  obtain ⟨_, -, outcome⟩ := reconcileTail_ok notesDir reconciled
  refine ⟨existing.distinct, ?_⟩
  intro path
  rw [existing.mem_iff]
  apply and_congr_right
  intro _
  apply and_congr_right
  intro record
  have same : viewAt second (noteKey (.attach raw) path) = viewAt storage (noteKey (.attach raw) path) :=
    beside.view (joinPath path)
  rcases outcome with ⟨-, rfl⟩ | ⟨-, tail, written, -⟩
  · rw [same]
  · rw [(put_spec written).2.apart (noteKey_ne_sidecar record), same]

end Recovery

theorem existing_memory {fs : AgentFs} {storage : MemoryStorage} {notes : List (List Name)} (distinct : notes.Nodup)
    (proper : ∀ path ∈ notes, path ≠ [] ∧ isNoteRecord (joinPath path) = true)
    (keys : storage.inner.keys.Perm (fs.key NOTES_TAIL_SUFFIX :: notes.map (noteKey fs))) : Existing fs storage notes := by
  refine ⟨distinct, ?_⟩
  intro path
  have present : (viewAt storage (noteKey fs path)).isSome = true ↔
      noteKey fs path = fs.key NOTES_TAIL_SUFFIX ∨ noteKey fs path ∈ notes.map (noteKey fs) := by
    change (storage.inner.lookup (noteKey fs path)).isSome = true ↔ _
    rw [AList.lookup_isSome, AList.mem_keys, keys.mem_iff, List.mem_cons]
  rw [present]
  constructor
  · intro member
    exact ⟨(proper path member).1, (proper path member).2, .inr (List.mem_map_of_mem member)⟩
  · intro ⟨_, record, named⟩
    rcases named with sidecar | listed
    · exact (noteKey_ne_sidecar record (congrArg keyPath sidecar)).elim
    · obtain ⟨other, member, same⟩ := List.mem_map.mp listed
      have paths := congrArg keyPath same
      rw [keyPath_noteKey, keyPath_noteKey] at paths
      exact List.append_cancel_left paths ▸ member

end Coral.Proofs

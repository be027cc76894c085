import Coral.Library.Machine
import Coral.Library.Recency
import Coral.Proofs.NotesIndex

/-! The notes a cycle is told about: the most recent ones, and a count of the others that is
right unless the sidecar has lost sight of some note. -/

namespace Coral.Proofs
open Coral.Library LawfulStorage

abbrev NotesRecency := Recency (List Name) TAIL_K

def recencyOp (recency : NotesRecency) (op : FsOp) : NotesRecency :=
  match notePath op.path, op with
  | some path, .writeFile _ _ => recency.touch path
  | some path, .deleteFile _ => recency.forget path
  | none, _ => recency

/-- A batch counts as a whole or, when one of its paths is rejected, not at all. -/
def recencyBatch (recency : NotesRecency) (ops : List FsOp) : NotesRecency :=
  if ops.all fun op => (notePath op.path).isSome then ops.foldl recencyOp recency else recency

def recencyOf (history : List (Clock × List FsOp)) : NotesRecency :=
  history.foldl (fun recency batch => recencyBatch recency batch.2) .empty

/-- Batches as an agent applies them, none of which meets a fault of the store. -/
def noteBatches {σ : Type} [AgentStorage σ] (fs : AgentFs) : Machine σ (Clock × List FsOp) FsError :=
  ⟨fun storage (clock, ops) =>
    match fs.applyOps clock ops storage with
    | (.ok (), after) => some (after, [])
    | (.error error, after) => if error.isModelFault then some (after, [error]) else none⟩

section Tracks

variable {σ : Type} [AgentStorage σ] [LawfulStorage σ]

/-- No note has been written yet. -/
structure Fresh (fs : AgentFs) (storage : σ) : Prop where
  sidecar : AgentFs.get storage (fs.key NOTES_TAIL_SUFFIX) = .ok none
  listed : AgentFs.listAll storage (fs.key "notes/") = .ok []
  notes : ∀ path, viewAt storage (noteKey fs path) = none

/-- The recency list has the notes that exist, and the sidecar shows its front. -/
structure Tracks (fs : AgentFs) (storage : σ) (recency : NotesRecency) : Prop where
  notes : ∀ path, path ≠ [] → isNoteRecord (joinPath path) = true →
    ((viewAt storage (noteKey fs path)).isSome = true ↔ path ∈ recency.all)
  readable : AgentFs.get storage (fs.key NOTES_TAIL_SUFFIX) = .ok (viewAt storage (fs.key NOTES_TAIL_SUFFIX))
  shown : (tailAt storage (fs.key NOTES_TAIL_SUFFIX)).entries.map (·.filename) = recency.shown.map joinPath
  untouched : viewAt storage (fs.key NOTES_TAIL_SUFFIX) = none →
    recency.all = [] ∧ AgentFs.listAll storage (fs.key "notes/") = .ok []
  formed : ∀ content, viewAt storage (fs.key NOTES_TAIL_SUFFIX) = some content → content.asTail.isSome = true

variable {fs : AgentFs} {storage after : σ} {recency : NotesRecency}

omit [AgentStorage σ] [LawfulStorage σ] in
theorem keyPath_noteKey (fs : AgentFs) (path : List Name) :
    keyPath (noteKey fs path) = keyPath (fs.key "notes") ++ path := by
  unfold noteKey
  rw [show "notes/" = "notes" ++ "/" from rfl, String.append_assoc, key_append, ← String.append_assoc, keyPath_append,
    keyPath_joinPath]

theorem keyPath_sidecar (fs : AgentFs) :
    ∃ name : Name, name.text = "_tail.json" ∧ keyPath (fs.key NOTES_TAIL_SUFFIX) = keyPath (fs.key "notes") ++ [name] := by
  refine ⟨⟨"_tail.json", by decide⟩, rfl, ?_⟩
  exact keyPath_noteKey fs [⟨"_tail.json", by decide⟩]

theorem noteKey_apart {path other : List Name} (apart : path ≠ other) :
    keyPath (noteKey fs path) ≠ keyPath (noteKey fs other) := by
  rw [keyPath_noteKey, keyPath_noteKey]
  exact fun same => apart (List.append_cancel_left same)

theorem noteKey_ne_sidecar {path : List Name} (record : isNoteRecord (joinPath path) = true) :
    keyPath (noteKey fs path) ≠ keyPath (fs.key NOTES_TAIL_SUFFIX) := by
  obtain ⟨name, text, sidecar⟩ := keyPath_sidecar fs
  rw [keyPath_noteKey, sidecar]
  intro same
  rw [List.append_cancel_left same] at record
  unfold joinPath isNoteRecord at record
  simp [text] at record

theorem Fresh.tracks (fresh : Fresh fs storage) : Tracks fs storage .empty where
  notes path _ _ := by simp [fresh.notes path, Recency.empty]
  readable := by rw [fresh.sidecar, ← get_spec fresh.sidecar]
  shown := by simp [tailAt, ← get_spec fresh.sidecar, Recency.empty]
  untouched _ := ⟨rfl, fresh.listed⟩
  formed content found := by
    rw [← get_spec fresh.sidecar] at found
    cases found

private theorem map_filter_joinPath (paths : List (List Name)) (path : List Name) :
    (paths.map joinPath).filter (· != joinPath path) = (paths.filter (· ≠ path)).map joinPath := by
  rw [List.filter_map]
  congr 1
  apply List.filter_congr
  intro other _
  simp only [Function.comp_apply]
  rw [Bool.eq_iff_iff, bne_iff_ne, decide_eq_true_eq, Ne, joinPath_injective.eq_iff]

theorem filenames_removed (tail : TailObject) (path : List Name) :
    (removed tail (joinPath path)).entries.map (·.filename) =
      (tail.entries.map (·.filename)).filter (· != joinPath path) := by
  rw [List.filter_map]
  rfl

theorem filenames_appended (tail : TailObject) (path : List Name) (now : DateTime) :
    (appended tail (joinPath path) now).entries.map (·.filename) =
      (joinPath path :: (tail.entries.map (·.filename)).filter (· != joinPath path)).take TAIL_K := by
  rw [← filenames_removed]
  exact List.map_take

private theorem Tracks.absent (tracks : Tracks fs storage recency) {path : List Name} (proper : path ≠ [])
    (record : isNoteRecord (joinPath path) = true) (missing : path ∉ recency.all) :
    viewAt storage (noteKey fs path) = none := by
  rw [← Option.not_isSome_iff_eq_none]
  exact fun there => missing ((tracks.notes path proper record).mp there)

private theorem Tracks.written {path : List Name} (record : isNoteRecord (joinPath path) = true) {now : DateTime}
    {middle : σ} {content : String} (tracks : Tracks fs storage recency)
    (wrote : AgentFs.put storage (noteKey fs path) (.text content) = .ok middle)
    (followed : fs.appendToTail NOTES_TAIL_SUFFIX (joinPath path) now middle = .ok after) :
    Tracks fs after (recency.touch path) := by
  have noted := (put_spec wrote).2
  obtain ⟨readable, tailed⟩ := appendToTail_ok followed
  have same : tailAt middle (fs.key NOTES_TAIL_SUFFIX) = tailAt storage (fs.key NOTES_TAIL_SUFFIX) := by
    simp only [tailAt]
    rw [noted.apart (noteKey_ne_sidecar record).symm]
  refine ⟨?_, readable, ?_, ?_, ?_⟩
  · intro other proper otherRecord
    rw [tailed.apart (noteKey_ne_sidecar otherRecord), Recency.mem_touch]
    by_cases here : other = path
    · subst here
      simp [noted.at_key]
    · rw [noted.apart (noteKey_apart here), tracks.notes other proper otherRecord]
      simp [here]
  · simp only [tailAt]
    rw [tailed.at_key, same]
    change (appended _ _ _).entries.map (·.filename) = _
    rw [filenames_appended, tracks.shown, map_filter_joinPath, ← List.map_cons, ← List.map_take]
    rfl
  · intro missing
    rw [tailed.at_key] at missing
    cases missing
  · intro content found
    rw [tailed.at_key] at found
    cases found
    rfl

private theorem Tracks.deleted {path : List Name} (proper : path ≠ []) (record : isNoteRecord (joinPath path) = true)
    {middle : σ} (tracks : Tracks fs storage recency)
    (deleted : AgentFs.stored (noteKey fs path) (AgentStorage.delete storage (noteKey fs path)) = .ok middle)
    (followed : fs.removeFromTail NOTES_TAIL_SUFFIX (joinPath path) middle = .ok after) :
    Tracks fs after (recency.forget path) := by
  obtain ⟨erased, kept⟩ := delete_spec deleted
  obtain ⟨readable, outcome⟩ := removeFromTail_ok followed
  have sidecar := erased.apart (@noteKey_ne_sidecar fs _ record).symm
  have same : tailAt middle (fs.key NOTES_TAIL_SUFFIX) = tailAt storage (fs.key NOTES_TAIL_SUFFIX) := by
    simp only [tailAt]
    rw [sidecar]
  have notes : ∀ other, other ≠ [] → isNoteRecord (joinPath other) = true →
      ((viewAt middle (noteKey fs other)).isSome = true ↔ other ∈ (recency.forget path).all) := by
    intro other otherProper otherRecord
    rw [Recency.mem_forget]
    by_cases here : other = path
    · subst here
      simp [erased.at_key]
    · rw [erased.apart (noteKey_apart here), tracks.notes other otherProper otherRecord]
      simp [here]
  have shown : (removed (tailAt storage (fs.key NOTES_TAIL_SUFFIX)) (joinPath path)).entries.map (·.filename) =
      (recency.forget path).shown.map joinPath := by
    rw [filenames_removed, tracks.shown, map_filter_joinPath]
    rfl
  have untouched : viewAt middle (fs.key NOTES_TAIL_SUFFIX) = none →
      (recency.forget path).all = [] ∧ AgentFs.listAll middle (fs.key "notes/") = .ok [] := by
    intro missing
    obtain ⟨empty, listed⟩ := tracks.untouched (sidecar.symm.trans missing)
    have absent := tracks.absent proper record (by simp [empty])
    rw [kept absent, listed]
    exact ⟨by simp [Recency.forget, empty], rfl⟩
  rw [same] at outcome
  rcases outcome with ⟨unchanged, nothing⟩ | tailed
  · subst unchanged
    refine ⟨notes, readable, ?_, untouched, fun content found => tracks.formed content (sidecar.symm.trans found)⟩
    rw [same, ← shown, nothing]
  · refine ⟨?_, readable, ?_, ?_, ?_⟩
    · intro other otherProper otherRecord
      rw [tailed.apart (noteKey_ne_sidecar otherRecord)]
      exact notes other otherProper otherRecord
    · simp only [tailAt]
      rw [tailed.at_key]
      exact shown
    · intro missing
      rw [tailed.at_key] at missing
      cases missing
    · intro content found
      rw [tailed.at_key] at found
      cases found
      rfl

theorem Tracks.batch {clock : Clock} {ops : List FsOp} (tracks : Tracks fs storage recency)
    (applied : fs.applyOps clock ops storage = (.ok (), after)) : Tracks fs after (recencyBatch recency ops) := by
  have run := applyOps_induction (fun done storage => Tracks fs storage (done.foldl recencyOp recency)) (by
    intro done op path now before next _ named held executed
    obtain ⟨proper, record⟩ := isNoteRecord_notePath named
    have effect := executeOp_ok executed
    rw [List.foldl_append, List.foldl_cons, List.foldl_nil]
    simp only [recencyOp, named]
    cases op with
    | writeFile raw content =>
      obtain ⟨middle, wrote, followed⟩ := effect
      exact held.written record wrote followed
    | deleteFile raw =>
      obtain ⟨middle, deleted, followed⟩ := effect
      exact held.deleted proper record deleted followed) tracks applied
  unfold recencyBatch
  rw [if_pos (List.all_eq_true.mpr run.2)]
  exact run.1

omit [LawfulStorage σ] in
theorem recencyBatch_rejected {clock : Clock} {ops : List FsOp} {error : FsError}
    (rejected : fs.applyOps clock ops storage = (.error error, after)) (fault : error.isModelFault = true) :
    after = storage ∧ recencyBatch recency ops = recency := by
  unfold AgentFs.applyOps at rejected
  split at rejected
  · have infrastructure := executeOps_fault rejected
    rw [fault] at infrastructure
    cases infrastructure
  · rename_i refused plan
    cases rejected
    obtain ⟨-, op, member, unnamed⟩ := planOps_error plan
    refine ⟨rfl, ?_⟩
    unfold recencyBatch
    rw [if_neg]
    intro named
    have here := List.all_eq_true.mp named op member
    rw [unnamed] at here
    cases here

theorem tracks_run {history : List (Clock × List FsOp)} {rejections : List FsError} (fresh : Fresh fs storage)
    (ran : (noteBatches fs).run storage history = some (after, rejections)) : Tracks fs after (recencyOf history) := by
  apply (noteBatches fs).history_invariant (fun history after _ => Tracks fs after (recencyOf history)) fresh.tracks _ ran
  intro history before _ batch next more tracks stepped
  have extended : recencyOf (history ++ [batch]) = recencyBatch (recencyOf history) batch.2 := by
    simp [recencyOf]
  rw [extended]
  simp only [noteBatches] at stepped
  split at stepped
  · rename_i applied
    cases stepped
    exact tracks.batch applied
  · rename_i error rejected
    split at stepped
    · rename_i fault
      cases stepped
      have nothing : next = before ∧ recencyBatch (recencyOf history) batch.2 = recencyOf history :=
        recencyBatch_rejected rejected fault
      obtain ⟨unchanged, ignored⟩ := nothing
      rw [unchanged, ignored]
      exact tracks
    · cases stepped

/-- What a window has to say when these are the notes, the last one written first. -/
structure Truthful (fs : AgentFs) (storage : σ) (notes : List (List Name)) (n : Nat) (window : RecentWindow) : Prop where
  existing : ∀ path, path ≠ [] → isNoteRecord (joinPath path) = true →
    ((viewAt storage (noteKey fs path)).isSome = true ↔ path ∈ notes)
  recent : window.filenames = (notes.take n).map joinPath
  distinct : window.filenames.Nodup
  others : match window.more with
    | .none => notes.length = window.filenames.length
    | .exactly left => notes.length = window.filenames.length + left
    | .atLeast left => window.filenames.length + left ≤ notes.length

/-- Either the window is full, or there is nothing that it does not show. -/
def Accounted (recency : NotesRecency) : Prop :=
  recency.shown.length = TAIL_K ∨ recency.shown.length = recency.all.length

instance (recency : NotesRecency) : Decidable (Accounted recency) := inferInstanceAs (Decidable (_ ∨ _))

/-- What the window says is read off the sidecar's entries. -/
def shownWindow (shown : List String) (n : Nat) : RecentWindow :=
  ⟨shown.take n, if shown.length = TAIL_K then .atLeast (TAIL_K - n)
    else if shown.length ≤ n then .none else .exactly (shown.length - n)⟩

omit [AgentStorage σ] [LawfulStorage σ] in
theorem dirPrefix_notes : fs.dirPrefix "notes/" = .ok (fs.key "notes/") := rfl

omit [LawfulStorage σ] in
/-- What the readers of a tail make of it. -/
theorem recentNotes_of_tail {content : Content} {tail : TailObject} {n : Nat} (positive : 1 ≤ n)
    (read : AgentFs.get storage (fs.key NOTES_TAIL_SUFFIX) = .ok (some content)) (formed : content.asTail = some tail) :
    fs.recentNoteFilenames storage n = .ok (shownWindow (tail.entries.map (·.filename)) n) := by
  unfold AgentFs.recentNoteFilenames AgentFs.recentWindow
  rw [if_neg (by omega), read]
  simp only [bind, Except.bind, Option.bind_some, formed, pure, Except.pure, shownWindow, List.length_map, ← List.map_take]
  have taken : tail.entries.take (min tail.entries.length n) = tail.entries.take n := by
    rw [Nat.min_comm, ← List.take_eq_take_min]
  rw [taken]
  by_cases full : tail.entries.length = TAIL_K
  · have most : TAIL_K - min TAIL_K n = TAIL_K - n := by omega
    rw [if_pos full, if_pos full, full, most]
  · rw [if_neg full, if_neg full]
    cases left : tail.entries.length - min tail.entries.length n with
    | zero =>
      rw [if_pos (by omega)]
      rfl
    | succ rest =>
      have other : tail.entries.length - n = rest + 1 := by omega
      rw [if_neg (by omega), other]
      rfl

omit [LawfulStorage σ] in
/-- Without a tail the names are those of the directory. -/
theorem recentNotes_of_none {n : Nat} (positive : 1 ≤ n)
    (read : AgentFs.get storage (fs.key NOTES_TAIL_SUFFIX) = .ok none) (empty : fs.listDir storage "notes/" = .ok []) :
    fs.recentNoteFilenames storage n = .ok (shownWindow [] n) := by
  unfold AgentFs.recentNoteFilenames AgentFs.recentWindow
  rw [if_neg (by omega), read]
  change (fs.listDir storage "notes/" >>= _) = _
  rw [empty]
  simp [bind, Except.bind, pure, Except.pure, shownWindow, TAIL_K]

theorem Tracks.window (tracks : Tracks fs storage recency) {n : Nat} (positive : 1 ≤ n) :
    fs.recentNoteFilenames storage n = .ok (shownWindow (recency.shown.map joinPath) n) := by
  have readable := tracks.readable
  have shown := tracks.shown
  unfold tailAt at shown
  cases found : viewAt storage (fs.key NOTES_TAIL_SUFFIX) with
  | none =>
    obtain ⟨empty, listed⟩ := tracks.untouched found
    have none_shown : recency.shown = [] := by
      have front := recency.front
      rw [empty] at front
      exact List.prefix_nil.mp front
    have dir : fs.listDir storage "notes/" = .ok [] := by
      unfold AgentFs.listDir
      rw [dirPrefix_notes]
      change (AgentFs.listAll storage (fs.key "notes/") >>= _) = _
      rw [listed]
      rfl
    rw [found] at readable
    rw [recentNotes_of_none positive readable dir, none_shown]
    rfl
  | some content =>
    obtain ⟨tail, formed⟩ := Option.isSome_iff_exists.mp (tracks.formed content found)
    rw [found, Option.bind_some, formed, Option.getD_some] at shown
    rw [found] at readable
    rw [recentNotes_of_tail positive readable formed, shown]

theorem Tracks.truthful_iff (tracks : Tracks fs storage recency) {n : Nat} (small : n ≤ TAIL_K) :
    Truthful fs storage recency.all n (shownWindow (recency.shown.map joinPath) n) ↔ Accounted recency := by
  have bounded := recency.bounded
  have shorter := recency.shown_le
  have lengths : ((recency.shown.map joinPath).take n).length = min n recency.shown.length := by simp
  constructor
  · intro truthful
    have others := truthful.others
    by_contra unaccounted
    obtain ⟨open_, missing⟩ := not_or.mp unaccounted
    simp only [shownWindow, List.length_map, if_neg open_, lengths] at others
    by_cases all_shown : recency.shown.length ≤ n
    · rw [if_pos all_shown] at others
      simp only at others
      omega
    · rw [if_neg all_shown] at others
      simp only at others
      omega
  · intro accounted
    have recent : (recency.shown.map joinPath).take n = (recency.all.take n).map joinPath := by
      rw [← List.map_take]
      congr 1
      rcases accounted with full | whole
      · exact recency.take_shown (by omega)
      · rw [recency.shown_eq_all whole]
    refine ⟨tracks.notes, recent, ?_, ?_⟩
    · simp only [shownWindow, recent]
      exact (recency.nodup.sublist (List.take_sublist _ _)).map joinPath_injective
    · simp only [shownWindow, List.length_map, lengths]
      by_cases full : recency.shown.length = TAIL_K
      · rw [if_pos full]
        simp only
        omega
      · have whole : recency.shown.length = recency.all.length := accounted.resolve_left full
        rw [if_neg full]
        by_cases all_shown : recency.shown.length ≤ n
        · rw [if_pos all_shown]
          simp only
          omega
        · rw [if_neg all_shown]
          simp only
          omega

/-- Over every history of batches, the window is right exactly when it accounts for every note. -/
theorem recent_notes_truthful_iff {storage final : σ} {history : List (Clock × List FsOp)} {rejections : List FsError}
    (fresh : Fresh fs storage) (ran : (noteBatches fs).run storage history = some (final, rejections)) {n : Nat}
    (positive : 1 ≤ n) (small : n ≤ TAIL_K) :
    (∃ window, fs.recentNoteFilenames final n = .ok window ∧ Truthful fs final (recencyOf history).all n window) ↔
      Accounted (recencyOf history) := by
  have tracks := tracks_run fresh ran
  rw [tracks.window positive, ← tracks.truthful_iff small]
  constructor
  · intro ⟨window, same, truthful⟩
    cases same
    exact truthful
  · exact fun truthful => ⟨_, rfl, truthful⟩

end Tracks

theorem Fresh.memory (fs : AgentFs) : Fresh fs (⟨∅⟩ : MemoryStorage) := ⟨rfl, rfl, fun _ => rfl⟩

/-- Three notes are written, one of them again and one deleted, and a batch is refused. -/
private def draftsHistory : List (Clock × List FsOp) :=
  [(fun _ => ⟨0⟩, [.writeFile "notes/plan.md" "plan", .writeFile "notes/drafts/one.md" "one",
      .writeFile "notes/sources.md" "sources"]),
    (fun _ => ⟨1⟩, [.writeFile "notes/plan.md" "another plan", .deleteFile "notes/sources.md"]),
    (fun _ => ⟨2⟩, [.deleteFile "notes/plan.md", .writeFile "mandate.md" ""])]

theorem recent_notes_truthful_iff_drafts :
    ∃ final rejections, (noteBatches ⟨""⟩).run (⟨∅⟩ : MemoryStorage) draftsHistory = some (final, rejections) ∧
      (recencyOf draftsHistory).all.map joinPath = ["plan.md", "drafts/one.md"] ∧
      ∃ window, (⟨""⟩ : AgentFs).recentNoteFilenames final 1 = .ok window ∧
        Truthful ⟨""⟩ final (recencyOf draftsHistory).all 1 window := by
  have run : ((noteBatches ⟨""⟩).run (⟨∅⟩ : MemoryStorage) draftsHistory).isSome = true := by decide +kernel
  obtain ⟨⟨final, rejections⟩, ran⟩ := Option.isSome_iff_exists.mp run
  have small : 1 ≤ TAIL_K := by decide
  exact ⟨final, rejections, ran, by decide +kernel,
    (recent_notes_truthful_iff (Fresh.memory _) ran (Nat.le_refl 1) small).mpr (by decide +kernel)⟩
private theorem memory_get (storage : MemoryStorage) (key : String) :
    AgentFs.get storage key = .ok (storage.inner.lookup key) := rfl

private theorem memory_put (storage : MemoryStorage) (key : String) (value : Content) :
    AgentFs.put storage key value = .ok ⟨storage.inner.insert key value⟩ := rfl

private theorem memory_delete (storage : MemoryStorage) (key : String) :
    AgentFs.stored key (AgentStorage.delete storage key) = .ok ⟨storage.inner.erase key⟩ := rfl

private theorem memory_executeOps (fs : AgentFs) (clock : Clock) (reading : Nat) (planned : List (String × FsOp))
    (storage : MemoryStorage) : ∃ after, fs.executeOps clock reading planned storage = (.ok (), after) := by
  have removes : ∀ filename (storage : MemoryStorage),
      ∃ after, fs.removeFromTail NOTES_TAIL_SUFFIX filename storage = .ok after := by
    intro filename storage
    simp only [AgentFs.removeFromTail, memory_get, bind, Except.bind]
    cases storage.inner.lookup (fs.key NOTES_TAIL_SUFFIX) with
    | none => exact ⟨storage, rfl⟩
    | some content =>
      simp only
      split
      · exact ⟨storage, rfl⟩
      · exact ⟨_, rfl⟩
  have one : ∀ now key op (storage : MemoryStorage), ∃ after, fs.executeOp now key op storage = (.ok (), after) := by
    intro now key op storage
    cases op with
    | writeFile path content =>
      simp only [AgentFs.executeOp, memory_put]
      cases stripStart key (fs.key "notes/") with
      | none => exact ⟨_, rfl⟩
      | some rel => exact ⟨_, rfl⟩
    | deleteFile path =>
      simp only [AgentFs.executeOp, memory_delete]
      cases stripStart key (fs.key "notes/") with
      | none => exact ⟨_, rfl⟩
      | some rel =>
        obtain ⟨after, removed⟩ := removes rel ⟨storage.inner.erase key⟩
        simp only [removed]
        exact ⟨after, rfl⟩
  induction planned generalizing reading storage with
  | nil => exact ⟨storage, rfl⟩
  | cons step planned ih =>
    obtain ⟨middle, executed⟩ := one (clock reading) step.1 step.2 storage
    simp only [AgentFs.executeOps, executed]
    exact ih (reading + 1) middle

/-- No batch meets a fault in memory. -/
theorem memory_batches (fs : AgentFs) (storage : MemoryStorage) (history : List (Clock × List FsOp)) :
    ∃ final rejections, (noteBatches fs).run storage history = some (final, rejections) := by
  induction history generalizing storage with
  | nil => exact ⟨storage, [], rfl⟩
  | cons batch history ih =>
    have stepped : ∃ next more, (noteBatches fs).step storage batch = some (next, more) := by
      simp only [noteBatches, AgentFs.applyOps]
      cases plan : fs.planOps batch.2 with
      | ok planned =>
        obtain ⟨after, executed⟩ := memory_executeOps fs batch.1 0 planned storage
        simp only [executed]
        exact ⟨after, [], rfl⟩
      | error error =>
        simp only [(planOps_error plan).1]
        exact ⟨storage, [error], rfl⟩
    obtain ⟨middle, first, stepped⟩ := stepped
    obtain ⟨final, rest, ran⟩ := ih middle
    exact ⟨final, first ++ rest, (noteBatches fs).run_cons.mpr ⟨middle, first, rest, stepped, ran, rfl⟩⟩

/-- The notes `a`, `b` and so on, one batch for all of them. -/
def manyNotes (count : Nat) : List FsOp :=
  (List.range count).map fun index => .writeFile ("notes/" ++ (Char.ofNat (97 + index)).toString) ""

/-- Once the 65th note has pushed one out, a delete makes the sidecar look complete. -/
theorem pushed_out_note_forgotten :
    ¬ ∀ (fs : AgentFs) (storage final : MemoryStorage) (history : List (Clock × List FsOp)) (rejections : List FsError),
        Fresh fs storage → (noteBatches fs).run storage history = some (final, rejections) →
        ∀ n, 1 ≤ n → n ≤ TAIL_K → ∃ window, fs.recentNoteFilenames final n = .ok window ∧
          Truthful fs final (recencyOf history).all n window := by
  intro truthful
  let history : List (Clock × List FsOp) := [(fun _ => ⟨0⟩, manyNotes 65), (fun _ => ⟨0⟩, [.deleteFile "notes/b"])]
  obtain ⟨final, rejections, ran⟩ := memory_batches ⟨""⟩ ⟨∅⟩ history
  have positive : 1 ≤ TAIL_K := by decide
  have tracks := tracks_run (Fresh.memory _) ran
  obtain ⟨window, got, told⟩ := truthful ⟨""⟩ ⟨∅⟩ final history rejections (Fresh.memory _) ran 1 (Nat.le_refl 1) positive
  rw [tracks.window (Nat.le_refl 1)] at got
  obtain rfl := Except.ok.inj got
  have lengths : (recencyOf history).shown.length = 63 ∧ (recencyOf history).all.length = 64 := by decide +kernel
  have accounted : (recencyOf history).shown.length = 64 ∨ _ := (tracks.truthful_iff positive).mp told
  omega
end Coral.Proofs

import Coral.Proofs.NotesListing

/-! The standing status note in the seed. It is pinned in front of a window that does not
show it, and what is left over is one less. -/

namespace Coral.Proofs
open Coral.Library LawfulStorage

def statusName : Name := ⟨"STATUS.md", by decide⟩

/-- What these names and this remainder say is so when these are the notes. -/
structure Tells (notes : List (List Name)) (filenames : List String) (more : Remainder) : Prop where
  named : ∀ name ∈ filenames, name ∈ notes.map joinPath
  distinct : filenames.Nodup
  counted : match more with
    | .none => notes.length = filenames.length
    | .exactly left => notes.length = filenames.length + left
    | .atLeast left => filenames.length + left ≤ notes.length

/-- The seed has the status note once if it is there, the rest of the window as it was, and
says what is so. -/
structure PinsStatus (notes : List (List Name)) (window : RecentWindow) (index : FsIndex) : Prop where
  status : index.notes.count STATUS_NOTE = if [statusName] ∈ notes then 1 else 0
  others : index.notes.filter (· ≠ STATUS_NOTE) = window.filenames.filter (· ≠ STATUS_NOTE)
  truthful : Tells notes index.notes index.notesMore

section Window

variable {notes : List (List Name)} {filenames : List String} {more : Remainder}

theorem status_mem_iff : STATUS_NOTE ∈ notes.map joinPath ↔ [statusName] ∈ notes := by
  rw [show STATUS_NOTE = joinPath [statusName] from rfl]
  exact List.mem_map_of_injective joinPath_injective

/-- One note more is shown, so that one less is left over. -/
theorem Tells.pin (tells : Tells notes filenames more) (there : [statusName] ∈ notes) (unshown : STATUS_NOTE ∉ filenames) :
    Tells notes (STATUS_NOTE :: filenames) more.decremented := by
  have named : ∀ name ∈ STATUS_NOTE :: filenames, name ∈ notes.map joinPath := by
    intro name member
    rcases List.mem_cons.mp member with rfl | shown
    · exact status_mem_iff.mpr there
    · exact tells.named name shown
  have distinct : (STATUS_NOTE :: filenames).Nodup := List.nodup_cons.mpr ⟨unshown, tells.distinct⟩
  have fewer := (List.subperm_of_subset distinct named).length_le
  rw [List.length_map, List.length_cons] at fewer
  have counted := tells.counted
  refine ⟨named, distinct, ?_⟩
  rw [List.length_cons]
  cases more with
  | none =>
    simp only at counted
    omega
  | exactly left =>
    simp only at counted
    unfold Remainder.decremented
    dsimp only
    split
    · rename_i same
      split at same
      · omega
      · cases same
    · rename_i rest same
      split at same
      · cases same
      · cases same
        omega
    · rename_i same
      split at same <;> cases same
  | atLeast left =>
    simp only [Remainder.decremented] at counted ⊢
    omega

theorem Tells.pins_shown (tells : Tells notes filenames more) (shown : STATUS_NOTE ∈ filenames) {index : FsIndex}
    (same : index.notes = filenames) (left : index.notesMore = more) : PinsStatus notes ⟨filenames, more⟩ index := by
  refine ⟨?_, by rw [same], by rw [same, left]; exact tells⟩
  rw [same, if_pos (status_mem_iff.mp (tells.named _ shown))]
  exact List.count_eq_one_of_mem tells.distinct shown

theorem Tells.pins_absent (tells : Tells notes filenames more) (absent : [statusName] ∉ notes) {index : FsIndex}
    (same : index.notes = filenames) (left : index.notesMore = more) : PinsStatus notes ⟨filenames, more⟩ index := by
  refine ⟨?_, by rw [same], by rw [same, left]; exact tells⟩
  rw [same, if_neg absent]
  exact List.count_eq_zero_of_not_mem fun shown => absent (status_mem_iff.mp (tells.named _ shown))

theorem Tells.pins_pinned (tells : Tells notes filenames more) (there : [statusName] ∈ notes)
    (unshown : STATUS_NOTE ∉ filenames) {index : FsIndex} (same : index.notes = STATUS_NOTE :: filenames)
    (left : index.notesMore = more.decremented) : PinsStatus notes ⟨filenames, more⟩ index := by
  refine ⟨?_, ?_, by rw [same, left]; exact tells.pin there unshown⟩
  · rw [same, if_pos there]
    exact List.count_eq_one_of_mem (tells.pin there unshown).distinct List.mem_cons_self
  · rw [same, List.filter_cons_of_neg (by simp)]

end Window

section BuildSeed

variable {σ : Type} [AgentStorage σ] [LawfulStorage σ] {fs : AgentFs} {storage : σ} {notes : List (List Name)}
  {window : RecentWindow}

/-- The reads of the seed are answered: of the status note, unless the window shows it, and of
the outputs. -/
def Answers (fs : AgentFs) (storage : σ) (window : RecentWindow) : Prop :=
  (STATUS_NOTE ∈ window.filenames ∨ ∃ found, AgentFs.get storage (fs.key STATUS_NOTE_PATH) = .ok found) ∧
    ∃ page, AgentStorage.list storage (fs.key "outputs/") none 1 = .ok page

omit [LawfulStorage σ] in
theorem fileExists_status : fs.fileExists storage STATUS_NOTE_PATH =
    (AgentFs.get storage (fs.key STATUS_NOTE_PATH)).map Option.isSome := by
  unfold AgentFs.fileExists
  rw [show AgentFs.cleanRelpath STATUS_NOTE_PATH = .ok STATUS_NOTE_PATH from by decide]
  simp only [bind, Except.bind]
  cases AgentFs.get storage (fs.key STATUS_NOTE_PATH) <;> rfl

omit [LawfulStorage σ] in
theorem recentOutputs_ok (n : Nat) : (∃ outputs, fs.recentOutputFilenames storage n = .ok outputs) ↔
    ∃ page, AgentStorage.list storage (fs.key "outputs/") none 1 = .ok page := by
  constructor
  · intro ⟨outputs, read⟩
    obtain ⟨page, listed, -⟩ := bind_ok read
    exact ⟨page, raw_ok listed⟩
  · intro ⟨page, listed⟩
    unfold AgentFs.recentOutputFilenames
    dsimp only
    rw [listed]
    exact ⟨_, rfl⟩

omit [LawfulStorage σ] in
theorem pinsStatusNote_ok : (∃ pinned, pinsStatusNote fs storage window.filenames = .ok pinned) ↔
    STATUS_NOTE ∈ window.filenames ∨ ∃ found, AgentFs.get storage (fs.key STATUS_NOTE_PATH) = .ok found := by
  unfold pinsStatusNote
  by_cases shown : STATUS_NOTE ∈ window.filenames
  · rw [if_pos (by simpa using shown)]
    simp [shown]
  · rw [if_neg (by simpa using shown), fileExists_status]
    cases AgentFs.get storage (fs.key STATUS_NOTE_PATH) with
    | error error => simp [Except.map, shown]
    | ok found => simp [Except.map, shown]

theorem status_exists_iff (existing : Existing fs storage notes) :
    [statusName] ∈ notes ↔ (viewAt storage (fs.key STATUS_NOTE_PATH)).isSome = true := by
  rw [existing.mem_iff, show noteKey fs [statusName] = fs.key STATUS_NOTE_PATH from rfl]
  exact ⟨fun there => there.2.2, fun there => ⟨by simp, by decide, there⟩⟩

/-- What is pinned is there and unshown. -/
theorem pinsStatusNote_eq (existing : Existing fs storage notes) {pinned : Bool} (decided : pinsStatusNote fs storage window.filenames = .ok pinned) :
    (pinned = true ∧ [statusName] ∈ notes ∧ STATUS_NOTE ∉ window.filenames) ∨
      pinned = false ∧ (STATUS_NOTE ∈ window.filenames ∨ [statusName] ∉ notes) := by
  unfold pinsStatusNote at decided
  by_cases shown : STATUS_NOTE ∈ window.filenames
  · rw [if_pos (by simpa using shown)] at decided
    cases decided
    exact .inr ⟨rfl, .inl shown⟩
  · rw [if_neg (by simpa using shown), fileExists_status] at decided
    cases got : AgentFs.get storage (fs.key STATUS_NOTE_PATH) with
    | error error =>
      rw [got] at decided
      cases decided
    | ok found =>
      rw [got] at decided
      cases decided
      rw [status_exists_iff existing, ← get_spec got]
      cases found with
      | none => exact .inr ⟨rfl, .inr (by simp)⟩
      | some content => exact .inl ⟨rfl, rfl, shown⟩

/-- From a window that tells what is so, the seed does too, as long as its reads are answered. -/
theorem build_seed_pins_status_iff (existing : Existing fs storage notes)
    (read : fs.recentNoteFilenames storage SEED_INDEX_NOTES = .ok window)
    (tells : Tells notes window.filenames window.more) (triggers : List Trigger) (cfg : Mandate) :
    (∃ seed, buildSeed fs triggers cfg storage = .ok seed ∧ PinsStatus notes window seed.index) ↔ Answers fs storage window := by
  constructor
  · intro ⟨seed, built, _⟩
    obtain ⟨other, again, built⟩ := bind_ok built
    rw [read] at again
    cases again
    obtain ⟨pinned, decided, built⟩ := bind_ok built
    obtain ⟨outputs, listed, -⟩ := bind_ok built
    exact ⟨pinsStatusNote_ok.mp ⟨pinned, decided⟩, (recentOutputs_ok _).mp ⟨outputs, listed⟩⟩
  · intro ⟨readable, listable⟩
    obtain ⟨pinned, decided⟩ := pinsStatusNote_ok.mpr readable
    obtain ⟨outputs, listed⟩ := (recentOutputs_ok SEED_INDEX_OUTPUTS).mpr listable
    refine ⟨⟨cfg, triggers, ⟨if pinned then STATUS_NOTE :: window.filenames else window.filenames, outputs.filenames,
      if pinned then window.more.decremented else window.more, outputs.more⟩⟩, ?_, ?_⟩
    · unfold buildSeed
      rw [read]
      simp only [bind, Except.bind]
      rw [decided]
      simp only
      rw [listed]
      rfl
    · rcases pinsStatusNote_eq existing decided with ⟨rfl, there, unshown⟩ | ⟨rfl, shown | absent⟩
      · exact tells.pins_pinned there unshown rfl rfl
      · exact tells.pins_shown shown rfl rfl
      · exact tells.pins_absent absent rfl rfl

end BuildSeed

/-- On the disk it takes that no directory is in the status note's place and nothing but
directories is above it, and that the outputs are not a file. -/
theorem answers_local_iff (fs : AgentFs) (storage : LocalStorage) (window : RecentWindow) :
    Answers fs storage window ↔
      (STATUS_NOTE ∈ window.filenames ∨ storage.tree.shape.clear (keyPath (fs.key STATUS_NOTE_PATH)) = true) ∧
        storage.tree.shape (LocalStorage.scanRoot (fs.key "outputs/")) ≠ some .file := by
  unfold Answers
  apply and_congr
  · apply or_congr_right
    cases clear : storage.tree.shape.clear (keyPath (fs.key STATUS_NOTE_PATH)) with
    | true => exact iff_of_true ⟨_, get_clear clear⟩ rfl
    | false =>
      obtain ⟨source, failed⟩ := get_unclear clear
      rw [failed]
      simp
  · constructor
    · intro ⟨page, listed⟩ file
      change storage.list _ none 1 = _ at listed
      rw [list_of_file file] at listed
      cases listed
    · exact fun apart => ⟨_, list_of_keys apart none 1⟩

theorem existing_local {fs : AgentFs} {storage : LocalStorage} {notes : List (List Name)} (distinct : notes.Nodup)
    (proper : ∀ path ∈ notes, path ≠ [] ∧ isNoteRecord (joinPath path) = true)
    (files : storage.tree.files.Perm ((fs.key NOTES_TAIL_SUFFIX :: notes.map (noteKey fs)).map keyPath)) :
    Existing fs storage notes := by
  refine ⟨distinct, ?_⟩
  intro path
  have present : (viewAt storage (noteKey fs path)).isSome = true ↔
      keyPath (noteKey fs path) = keyPath (fs.key NOTES_TAIL_SUFFIX) ∨
        keyPath (noteKey fs path) ∈ (notes.map (noteKey fs)).map keyPath := by
    change (storage.tree.read (keyPath (noteKey fs path))).isSome = true ↔ _
    rw [FileTree.isSome_read, ← FileTree.mem_files, files.mem_iff, List.map_cons, List.mem_cons]
  rw [present]
  constructor
  · intro member
    exact ⟨(proper path member).1, (proper path member).2, .inr (List.mem_map_of_mem (List.mem_map_of_mem member))⟩
  · intro ⟨_, record, named⟩
    rcases named with sidecar | listed
    · exact (noteKey_ne_sidecar record sidecar).elim
    · rw [List.map_map] at listed
      obtain ⟨other, member, same⟩ := List.mem_map.mp listed
      rw [Function.comp_apply, keyPath_noteKey, keyPath_noteKey] at same
      exact List.append_cancel_left same ▸ member

/-- Eight notes after the status note. -/
private def aged : List Name := ["8", "7", "6", "5", "4", "3", "2", "1", STATUS_NOTE].filterMap Name.ofText

private def agedNotes : MemoryStorage :=
  ⟨aged.foldr (fun name inner => inner.insert ("notes/" ++ name.text) (.text ""))
    (AList.insert "notes/_tail.json" (.tail ⟨aged.map fun name => ⟨name.text, ⟨0⟩⟩⟩) ∅)⟩

theorem build_seed_pins_status_iff_aged :
    ∃ seed, buildSeed ⟨""⟩ [] (.new "" ⟨0⟩ none) agedNotes = .ok seed ∧
      PinsStatus (aged.map ([·])) ⟨["8", "7", "6", "5", "4", "3", "2", "1"], .exactly 1⟩ seed.index := by
  have keys : agedNotes.inner.keys.Perm
      ((⟨""⟩ : AgentFs).key NOTES_TAIL_SUFFIX :: (aged.map ([·])).map (noteKey ⟨""⟩)) := by
    decide +kernel
  have existing : Existing ⟨""⟩ agedNotes (aged.map ([·])) :=
    existing_memory (by decide +kernel) (by decide +kernel) keys
  refine (build_seed_pins_status_iff existing (by decide +kernel) ⟨by decide +kernel, by decide, by decide +kernel⟩ []
    (.new "" ⟨0⟩ none)).mpr ?_
  exact ⟨.inr ⟨_, rfl⟩, _, rfl⟩

/-- A note of a directory that has the status note's name. -/
theorem status_directory_fails :
    ∃ storage : LocalStorage, (⟨""⟩ : AgentFs).applyOps (fun _ => ⟨0⟩) [.writeFile "notes/STATUS.md/x" ""] ⟨.empty⟩ =
        (.ok (), storage) ∧
      ∃ window, Existing ⟨""⟩ storage [[statusName, ⟨"x", by decide⟩]] ∧
        (⟨""⟩ : AgentFs).recentNoteFilenames storage SEED_INDEX_NOTES = .ok window ∧
        Tells [[statusName, ⟨"x", by decide⟩]] window.filenames window.more ∧
        ∀ triggers cfg seed, buildSeed ⟨""⟩ triggers cfg storage ≠ .ok seed := by
  generalize applied : (⟨""⟩ : AgentFs).applyOps (fun _ => ⟨0⟩) [.writeFile "notes/STATUS.md/x" ""]
    (⟨.empty⟩ : LocalStorage) = result
  obtain ⟨ended, storage⟩ := result
  have seen : ((⟨""⟩ : AgentFs).applyOps (fun _ => ⟨0⟩) [.writeFile "notes/STATUS.md/x" ""] (⟨.empty⟩ : LocalStorage)).1 =
        .ok () ∧
      storage.tree.files.Perm (((⟨""⟩ : AgentFs).key NOTES_TAIL_SUFFIX ::
        [[statusName, ⟨"x", by decide⟩]].map (noteKey ⟨""⟩)).map keyPath) ∧
      (⟨""⟩ : AgentFs).recentNoteFilenames storage SEED_INDEX_NOTES = .ok ⟨["STATUS.md/x"], .none⟩ ∧
      storage.tree.shape.clear (keyPath "notes/STATUS.md") = false := by
    rw [show storage = ((⟨""⟩ : AgentFs).applyOps (fun _ => ⟨0⟩) [.writeFile "notes/STATUS.md/x" ""] ⟨.empty⟩).2 by
      rw [applied]]
    decide +kernel
  rw [applied] at seen
  obtain ⟨ok, files, window, unclear⟩ := seen
  refine ⟨storage, by rw [← ok], _, existing_local (by decide) (by decide) files, window, ⟨by decide, by decide, by decide⟩, ?_⟩
  intro triggers cfg seed built
  obtain ⟨other, again, built⟩ := bind_ok built
  rw [window] at again
  cases again
  obtain ⟨pinned, decided, -⟩ := bind_ok built
  obtain ⟨source, failed⟩ := @get_unclear storage ((⟨""⟩ : AgentFs).key STATUS_NOTE_PATH) unclear
  rcases pinsStatusNote_ok.mp ⟨pinned, decided⟩ with shown | ⟨found, got⟩
  · exact absurd shown (by decide)
  · rw [failed] at got
    cases got

end Coral.Proofs

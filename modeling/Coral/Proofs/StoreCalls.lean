import Coral.Node.AgentCore

/-! What the calls of the store come to on a disk, and which errors a computation over
them can end with. -/

namespace Coral.Proofs
open Coral.Library

/-- A result whose error, if it is one, is of a kind. -/
def Tolerates {α : Type} (kind : FsError → Bool) (result : Except FsError α) : Prop :=
  ∀ error, result = .error error → kind error = true

section Tolerates

variable {α β : Type} {kind : FsError → Bool}

@[simp] theorem tolerates_ok (value : α) : Tolerates kind (.ok value) := by
  intro error failed
  cases failed

@[simp] theorem tolerates_pure (value : α) : Tolerates kind (pure value) := tolerates_ok value

@[simp] theorem tolerates_error {error : FsError} : Tolerates kind (.error error : Except FsError α) ↔ kind error = true := by
  constructor
  · exact fun tolerated => tolerated error rfl
  · intro known other failed
    cases failed
    exact known

theorem tolerates_bind {result : Except FsError α} {next : α → Except FsError β} :
    Tolerates kind (result >>= next) ↔
      Tolerates kind result ∧ ∀ value, result = .ok value → Tolerates kind (next value) := by
  cases result with
  | error error =>
    change Tolerates kind (.error error) ↔ _
    simp
  | ok value =>
    change Tolerates kind (next value) ↔ _
    simp

theorem tolerates_map {result : Except FsError α} {convert : α → β} :
    Tolerates kind (result.map convert) ↔ Tolerates kind result := by
  cases result with
  | error error => simp [Except.map]
  | ok value => simp [Except.map]

end Tolerates

theorem bind_ok {ε α β : Type} {result : Except ε α} {next : α → Except ε β} {value : β}
    (ended : result >>= next = .ok value) : ∃ middle, result = .ok middle ∧ next middle = .ok value := by
  cases result with
  | error error => cases ended
  | ok middle => exact ⟨middle, rfl, ended⟩

theorem raw_ok {α : Type} {key : String} {result : Except StorageError α} {value : α}
    (ended : AgentFs.stored key result = .ok value) : result = .ok value := by
  cases result with
  | error source => cases ended
  | ok other =>
    cases ended
    rfl

theorem ok_of_toOption {ε α : Type} {result : Except ε α} {value : α} (ended : result.toOption = some value) :
    result = .ok value := by
  cases result with
  | error error => cases ended
  | ok other =>
    cases ended
    rfl

theorem correcting_ok {step : String} {result : Except FsError StepOutcome} :
    (∃ outcome, correcting step result = .ok outcome) ↔ Tolerates FsError.isModelFault result := by
  cases result with
  | ok outcome => simp [correcting]
  | error error =>
    rw [tolerates_error]
    cases fault : error.isModelFault with
    | true => simp [correcting, fault]
    | false => simp [correcting, fault]

section Disk

variable {storage : LocalStorage} {key : String}

theorem get_clear (clear : storage.tree.shape.clear (keyPath key) = true) :
    AgentFs.get storage key = .ok (storage.tree.read (keyPath key)) := by
  change AgentFs.stored key (storage.get key) = _
  unfold LocalStorage.get
  rcases FileTree.resolve_clear clear with ⟨missing, absent⟩ | ⟨content, found, present⟩
  · rw [missing, absent]
    rfl
  · rw [found, present]
    rfl

theorem get_unclear (unclear : storage.tree.shape.clear (keyPath key) = false) :
    ∃ source, AgentFs.get storage key = .error (.storage key source) := by
  change ∃ source, AgentFs.stored key (storage.get key) = _
  unfold LocalStorage.get
  rcases FileTree.resolve_unclear unclear with below | there
  · rw [below]
    exact ⟨_, rfl⟩
  · rw [there]
    exact ⟨_, rfl⟩

theorem put_clear (clear : storage.tree.shape.clear (keyPath key) = true) (value : Content) :
    ∃ after : LocalStorage, AgentFs.put storage key value = .ok after ∧
      storage.tree.write (keyPath key) value = .ok after.tree := by
  obtain ⟨tree, written⟩ := FileTree.write_clear clear value
  refine ⟨⟨tree⟩, ?_, written⟩
  change AgentFs.stored key (storage.put key value) = _
  unfold LocalStorage.put
  rw [written]
  rfl

theorem delete_clear (clear : storage.tree.shape.clear (keyPath key) = true) :
    ∃ after : LocalStorage, AgentFs.stored key (AgentStorage.delete storage key) = .ok after ∧
      after.tree.shape = storage.tree.shape.remove (keyPath key) ∧
      ∀ path, after.tree.lookup path = if path = keyPath key then none else storage.tree.lookup path := by
  change ∃ after : LocalStorage, AgentFs.stored key (storage.delete key) = .ok after ∧ _
  unfold LocalStorage.delete
  cases removed : storage.tree.removeFile (keyPath key) with
  | ok tree => exact ⟨⟨tree⟩, rfl, FileTree.shape_removeFile removed, (FileTree.removeFile_ok removed).2⟩
  | error errno =>
    have met := FileTree.removeFile_error removed
    cases errno with
    | notFound =>
      obtain ⟨absent, -⟩ := met
      refine ⟨storage, rfl, ?_, ?_⟩
      · funext path
        unfold Shape.remove
        split
        · rename_i here
          rw [here, FileTree.shape_none_iff.mpr absent]
        · rfl
      · intro path
        split
        · rename_i here
          rw [here, absent]
        · rfl
    | _ =>
      rw [if_neg (by simp), clear] at met
      cases met

theorem delete_unclear (unclear : storage.tree.shape.clear (keyPath key) = false) :
    ∃ source, AgentFs.stored key (AgentStorage.delete storage key) = .error (.storage key source) := by
  change ∃ source, AgentFs.stored key (storage.delete key) = _
  unfold LocalStorage.delete
  cases removed : storage.tree.removeFile (keyPath key) with
  | ok tree =>
    rw [FileTree.clear_of_file (FileTree.removeFile_ok removed).1] at unclear
    cases unclear
  | error errno =>
    have met := FileTree.removeFile_error removed
    cases errno with
    | notFound =>
      rw [met.2] at unclear
      cases unclear
    | _ => exact ⟨_, rfl⟩

/-- Every key that is listed is a file's. -/
theorem listAll_dir {start : String} (apart : storage.tree.shape (LocalStorage.scanRoot start) ≠ some .file) :
    ∃ keys, AgentFs.listAll storage start = .ok keys ∧ ∀ key ∈ keys, storage.tree.shape (keyPath key) = some .file := by
  change ∃ keys, (AgentFs.stored start (storage.list start none usizeMax) >>= fun page => pure page.keys) = .ok keys ∧ _
  unfold LocalStorage.list
  cases found : storage.tree.lookup (LocalStorage.scanRoot start) with
  | none => exact ⟨[], rfl, by simp⟩
  | some entry =>
    cases entry with
    | file content => exact (apart (FileTree.shape_file_iff.mpr ⟨content, found⟩)).elim
    | dir =>
      refine ⟨_, rfl, ?_⟩
      intro key listed
      obtain ⟨path, walked, rfl⟩ := List.mem_map.mp (List.mem_of_mem_filter (ListPage.mem_keys_of listed))
      rw [keyPath_joinPath]
      exact FileTree.mem_files.mp (List.mem_of_mem_filter walked)

theorem listAll_file {start : String} (file : storage.tree.shape (LocalStorage.scanRoot start) = some .file) :
    ∃ source, AgentFs.listAll storage start = .error (.storage start source) := by
  change ∃ source, (AgentFs.stored start (storage.list start none usizeMax) >>= fun page => pure page.keys) = _
  obtain ⟨content, found⟩ := FileTree.shape_file_iff.mp file
  unfold LocalStorage.list
  rw [found]
  exact ⟨_, rfl⟩

theorem getMany_files {keys : List String} (files : ∀ key ∈ keys, storage.tree.shape (keyPath key) = some .file) :
    ∃ blobs, AgentStorage.getMany storage keys = .ok blobs := by
  unfold AgentStorage.getMany
  induction keys with
  | nil => exact ⟨[], rfl⟩
  | cons key keys ih =>
    obtain ⟨blobs, rest⟩ := ih fun other member => files other (List.mem_cons_of_mem _ member)
    have file := files key List.mem_cons_self
    have first := get_clear (FileTree.clear_of_file file)
    cases got : AgentStorage.get storage key with
    | error source =>
      change AgentFs.stored key (AgentStorage.get storage key) = _ at first
      rw [got] at first
      cases first
    | ok blob =>
      rw [List.mapM_cons, got, rest]
      exact ⟨blob :: blobs, rfl⟩

end Disk

end Coral.Proofs

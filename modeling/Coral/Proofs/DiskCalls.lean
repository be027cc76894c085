import Coral.Node.LocalDisk
import Coral.Proofs.StoreCalls

/-! The disk with its temporary files, call by call. A put goes through where the path is
clear and no directory is at the temporary path, and takes away what else was there. -/

namespace Coral.Proofs
open Coral.Library

section TemporaryPaths

variable {path : List Name} {pid : UInt32} {counter : UInt64}

theorem tmpPathFor_concat (dir : List Name) (name : Name) :
    tmpPathFor (dir ++ [name]) pid counter = dir ++ [tmpName name pid.toNat counter.toNat] := by simp [tmpPathFor]

theorem length_tmpPathFor : (tmpPathFor path pid counter).length = path.length := by
  rcases List.eq_nil_or_concat path with rfl | ⟨dir, name, rfl⟩
  · rfl
  · simp [tmpPathFor_concat]

theorem dropLast_tmpPathFor : (tmpPathFor path pid counter).dropLast = path.dropLast := by
  rcases List.eq_nil_or_concat path with rfl | ⟨dir, name, rfl⟩
  · rfl
  · simp [tmpPathFor_concat]

theorem tmpPathFor_ne (proper : path ≠ []) : tmpPathFor path pid counter ≠ path := by
  rcases List.eq_nil_or_concat path with rfl | ⟨dir, name, rfl⟩
  · exact (proper rfl).elim
  · rw [List.concat_eq_append, tmpPathFor_concat]
    exact fun same => tmpName_ne _ _ _ (List.singleton_inj.mp (List.append_cancel_left same))

theorem tmpPathFor_append {dir : List Name} (proper : path ≠ []) :
    tmpPathFor (dir ++ path) pid counter = dir ++ tmpPathFor path pid counter := by
  rcases List.eq_nil_or_concat path with rfl | ⟨front, name, rfl⟩
  · exact (proper rfl).elim
  · rw [List.concat_eq_append, ← List.append_assoc, tmpPathFor_concat, tmpPathFor_concat, List.append_assoc]

theorem temporary_tmpName (name : Name) (pid counter : Nat) : containsText (tmpName name pid counter).text ".tmp." = true := by
  unfold containsText
  rw [decide_eq_true_eq]
  unfold tmpName tmpSuffix
  simp only [String.toList_append, List.append_assoc]
  exact ⟨name.text.toList, (toString pid).toList ++ (".".toList ++ (toString counter).toList), List.append_assoc _ _ _⟩

/-- A path without the mark of such files has none at it or above it. -/
theorem no_temporary {other : List Name} (plain : ∀ name ∈ other, containsText name.text ".tmp." = false)
    (proper : path ≠ []) : ¬ tmpPathFor path pid counter <+: other := by
  intro above
  rcases List.eq_nil_or_concat path with rfl | ⟨dir, name, rfl⟩
  · exact proper rfl
  · rw [List.concat_eq_append, tmpPathFor_concat] at above
    have member := above.subset (List.mem_append_right dir (List.mem_singleton_self (tmpName name pid.toNat counter.toNat)))
    have marked := plain _ member
    rw [temporary_tmpName] at marked
    cases marked

end TemporaryPaths

/-- The system refuses no path, so that calls fail only because of what is there. -/
def Healthy (disk : LocalDisk) : Prop := ∀ tree path, disk.refusal tree path = none

/-- An empty disk, on which the system takes every name. -/
def emptyDisk (pid : UInt32) : LocalDisk := ⟨.empty, pid, 0, fun _ _ => none⟩

/-- As far as the shape of the disk goes, a put of the path goes through. -/
def passable (shape : Shape Name) (pid : UInt32) (counter : UInt64) (path : List Name) : Bool :=
  shape.clear path && shape (tmpPathFor path pid counter) ≠ some .dir

/-- What a put that goes through does. -/
structure PutThrough (disk : LocalDisk) (path : List Name) (value : Content) (after : LocalDisk) : Prop where
  pid : after.pid = disk.pid
  counter : after.tmpCounter = disk.tmpCounter + 1
  refusal : after.refusal = disk.refusal
  lookup : ∀ other, after.tree.lookup other =
    if other = disk.tmpPath path then none else if other = path then some (.file value)
    else if other <+: path then some .dir else disk.tree.lookup other

section Put

variable {disk : LocalDisk} {key : String}

theorem proper_of_clear {tree : FileTree Name Content} {path : List Name} (clear : tree.shape.clear path = true) :
    path ≠ [] := by
  rintro rfl
  have root : tree.shape [] = some .dir := FileTree.shape_dir_iff.mpr tree.lookup_root
  simp [Shape.clear, root] at clear

theorem put_passable (taken : ∀ tree, disk.refusal tree (disk.tmpPath (keyPath key)) = none)
    (passes : passable disk.tree.shape disk.pid disk.tmpCounter (keyPath key) = true) (value : Content) :
    ∃ after, disk.put key value = .ok after ∧ PutThrough disk (keyPath key) value after := by
  obtain ⟨clear, free⟩ := Bool.and_eq_true_iff.mp passes
  have proper := proper_of_clear clear
  obtain ⟨tree, written⟩ := FileTree.writeVia_succeeds proper dropLast_tmpPathFor length_tmpPathFor clear
    (of_decide_eq_true free) value
  obtain ⟨-, -, lookups⟩ := FileTree.writeVia_ok proper length_tmpPathFor (tmpPathFor_ne proper) written
  have made : ∃ made, disk.tree.createDirAll (keyPath key).dropLast = .ok made := by
    unfold FileTree.writeVia at written
    exact (bind_ok written).imp fun _ made => made.1
  obtain ⟨made, created⟩ := made
  refine ⟨{ disk with tree, tmpCounter := disk.tmpCounter + 1 }, ?_, ⟨rfl, rfl, rfl, lookups⟩⟩
  have through := taken made
  unfold LocalDisk.put
  unfold LocalDisk.tmpPath at through ⊢
  simp only [created, through, written]

theorem through_of_put {value : Content} {after : LocalDisk} (written : disk.put key value = .ok after) :
    passable disk.tree.shape disk.pid disk.tmpCounter (keyPath key) = true ∧
      (∃ made, disk.tree.createDirAll (keyPath key).dropLast = .ok made ∧ disk.refusal made (disk.tmpPath (keyPath key)) = none) ∧
      PutThrough disk (keyPath key) value after := by
  unfold LocalDisk.put at written
  cases created : disk.tree.createDirAll (keyPath key).dropLast with
  | error errno =>
    simp only [created] at written
    cases written
  | ok made =>
    simp only [created] at written
    cases refused : disk.refusal made (disk.tmpPath (keyPath key)) with
    | some error =>
      rw [refused] at written
      cases written
    | none =>
      rw [refused] at written
      cases moved : disk.tree.writeVia (disk.tmpPath (keyPath key)) (keyPath key) value with
      | error errno =>
        rw [moved] at written
        cases written
      | ok tree =>
        rw [moved] at written
        cases written
        have proper : keyPath key ≠ [] := by
          intro root
          unfold FileTree.writeVia LocalDisk.tmpPath at moved
          rw [root] at moved
          obtain ⟨middle, -, opened⟩ := bind_ok moved
          obtain ⟨last, made, -⟩ := bind_ok opened
          exact FileTree.create_vacant made (FileTree.shape_dir_iff.mpr middle.lookup_root)
        obtain ⟨clear, free, lookups⟩ := FileTree.writeVia_ok proper length_tmpPathFor (tmpPathFor_ne proper) moved
        refine ⟨?_, ⟨made, rfl, refused⟩, ⟨rfl, rfl, rfl, lookups⟩⟩
        unfold passable
        rw [clear, Bool.true_and, decide_eq_true_eq]
        exact free

theorem put_impassable (blocked : passable disk.tree.shape disk.pid disk.tmpCounter (keyPath key) = false)
    (value : Content) : ∃ error, disk.put key value = .error error := by
  cases written : disk.put key value with
  | error error => exact ⟨error, rfl⟩
  | ok after =>
    rw [(through_of_put written).1] at blocked
    cases blocked

/-- Calls at a path that the system takes are those of the store without temporary files. -/
theorem get_taken (taken : ∀ tree, disk.refusal tree (keyPath key) = none) : disk.get key = disk.store.get key := by
  unfold LocalDisk.get
  rw [taken]

theorem delete_taken (taken : ∀ tree, disk.refusal tree (keyPath key) = none) :
    disk.delete key = (disk.store.delete key).map fun after => { disk with tree := after.tree } := by
  unfold LocalDisk.delete
  rw [taken]

theorem putIfAbsent_taken (taken : ∀ tree, disk.refusal tree (keyPath key) = none) (value : Content) :
    disk.putIfAbsent key value =
      (disk.store.putIfAbsent key value).map fun (outcome, after) => (outcome, { disk with tree := after.tree }) := by
  unfold LocalDisk.putIfAbsent
  cases created : disk.tree.createDirAll (keyPath key).dropLast with
  | error errno =>
    have failed : disk.store.putIfAbsent key value = .error (.fromIo errno) := by
      unfold LocalStorage.putIfAbsent LocalDisk.store
      simp only [created]
    rw [failed]
    rfl
  | ok made =>
    simp only
    rw [taken]

/-- Where nothing is at the temporary path, the put is that of the store without such files. -/
theorem PutThrough.store {value : Content} {after : LocalDisk} (through : PutThrough disk (keyPath key) value after)
    (clear : disk.tree.shape.clear (keyPath key) = true) (vacant : disk.tree.lookup (disk.tmpPath (keyPath key)) = none) :
    ∃ stored, AgentStorage.put disk.store key value = .ok stored ∧
      ∀ path, after.tree.lookup path = stored.tree.lookup path := by
  obtain ⟨stored, put, written⟩ := @put_clear disk.store key clear value
  refine ⟨stored, raw_ok put, ?_⟩
  intro path
  rw [through.lookup, (FileTree.write_ok written).2]
  by_cases temporary : path = disk.tmpPath (keyPath key)
  · have proper := proper_of_clear clear
    have beside : ¬ path <+: keyPath key := by
      intro above
      rw [temporary] at above
      exact tmpPathFor_ne proper (above.eq_of_length length_tmpPathFor)
    have apart : path ≠ keyPath key := fun same => beside (same ▸ List.prefix_refl _)
    rw [if_pos temporary, if_neg apart, if_neg beside, temporary]
    exact vacant.symm
  · rw [if_neg temporary]
    rfl

end Put

end Coral.Proofs

import Coral.Node.AgentFs

/-! The contract of `AgentStorage`, by the places that keys name: a write is seen at its
place and nowhere else. Both backends keep it. -/

namespace Coral.Proofs
open Coral.Library

class LawfulStorage (σ : Type) [AgentStorage σ] where
  Place : Type
  decEq : DecidableEq Place
  place : String → Place
  /-- Keys of different paths name different places. -/
  path_of_place : ∀ key other, place key = place other → keyPath key = keyPath other
  view : σ → Place → Option Content
  get_ok : ∀ (storage : σ) key found, AgentStorage.get storage key = .ok found → found = view storage (place key)
  put_ok : ∀ (storage after : σ) key value, AgentStorage.put storage key value = .ok after →
    AgentStorage.get after key = .ok (some value) ∧
      ∀ place', view after place' = if place' = place key then some value else view storage place'
  putIfAbsent_created : ∀ (storage after : σ) key value,
    AgentStorage.putIfAbsent storage key value = .ok (.created, after) → view storage (place key) = none ∧
      AgentStorage.get after key = .ok (some value) ∧
        ∀ place', view after place' = if place' = place key then some value else view storage place'
  putIfAbsent_existed : ∀ (storage after : σ) key value,
    AgentStorage.putIfAbsent storage key value = .ok (.existed, after) → view after = view storage
  /-- Nothing is at the key, and nothing below it. -/
  vacant : σ → String → Prop
  put_vacant : ∀ (storage after : σ) key value, AgentStorage.put storage key value = .ok after →
    ∀ other, ¬ keyPath other <+: keyPath key → vacant storage other → vacant after other
  putIfAbsent_vacant : ∀ (storage after : σ) key value outcome,
    AgentStorage.putIfAbsent storage key value = .ok (outcome, after) →
      (outcome = .existed → ¬ vacant storage key) ∧
        ∀ other, ¬ keyPath other <+: keyPath key → vacant storage other → vacant after other
  get_put : ∀ (storage after : σ) key value, AgentStorage.put storage key value = .ok after →
    ∀ other, ¬ keyPath key <+: keyPath other → ¬ keyPath other <+: keyPath key →
      AgentStorage.get after other = AgentStorage.get storage other
  /-- A listing does not depend on a key that it has nothing to do with. -/
  list_put : ∀ (storage after : σ) key value, AgentStorage.put storage key value = .ok after →
    ∀ start cursor limit, startsWithText key start = false → startsWithText (joinPath (keyPath key)) start = false →
      ¬ keyPath key <+: keyPath start → AgentStorage.list after start cursor limit = AgentStorage.list storage start cursor limit
  delete_ok : ∀ (storage after : σ) key, AgentStorage.delete storage key = .ok after →
    (∀ place', view after place' = if place' = place key then none else view storage place') ∧
      (view storage (place key) = none → ∀ start cursor limit,
        AgentStorage.list after start cursor limit = AgentStorage.list storage start cursor limit)
  list_ok : ∀ (storage : σ) start after limit page, AgentStorage.list storage start after limit = .ok page →
    ∀ key ∈ page.keys, startsWithText key start = true ∧ (view storage (place key)).isSome = true
  list_nodup : ∀ (storage : σ) start after limit page, AgentStorage.list storage start after limit = .ok page →
    page.keys.Nodup
  /-- Which keys a listing from the start does not pass over. -/
  shows : String → String → Prop
  list_complete : ∀ (storage : σ) start limit page, AgentStorage.list storage start none limit = .ok page →
    page.keys.length < limit → ∀ key, startsWithText key start = true → (view storage (place key)).isSome = true →
      shows start key → key ∈ page.keys

instance {σ : Type} [AgentStorage σ] [LawfulStorage σ] : DecidableEq (LawfulStorage.Place σ) := LawfulStorage.decEq

theorem lookup_insert (inner : AList fun _ : String => Content) (key other : String) (value : Content) :
    (inner.insert key value).lookup other = if other = key then some value else inner.lookup other := by
  by_cases here : other = key
  · rw [here, if_pos rfl]
    exact AList.lookup_insert _
  · rw [if_neg here]
    exact AList.lookup_insert_ne here

theorem lookup_erase (inner : AList fun _ : String => Content) (key other : String) :
    (inner.erase key).lookup other = if other = key then none else inner.lookup other := by
  by_cases here : other = key
  · rw [here, if_pos rfl]
    exact AList.lookup_erase _ _
  · rw [if_neg here]
    exact AList.lookup_erase_ne here

instance : LawfulStorage MemoryStorage where
  Place := String
  decEq := inferInstance
  place := id
  path_of_place _ _ same := by rw [id, id] at same; rw [same]
  view storage key := storage.inner.lookup key
  get_ok storage key found got := (Except.ok.inj got).symm
  put_ok storage after key value written := by
    cases written
    refine ⟨?_, ?_⟩
    · change Except.ok ((storage.inner.insert key value).lookup key) = _
      rw [AList.lookup_insert]
    · intro other
      exact lookup_insert storage.inner key other value
  putIfAbsent_created storage after key value written := by
    change (if _ then _ else _) = _ at written
    split at written
    · cases written
    · rename_i absent
      cases written
      refine ⟨by simpa using absent, ?_, ?_⟩
      · change Except.ok ((storage.inner.insert key value).lookup key) = _
        rw [AList.lookup_insert]
      · intro other
        exact lookup_insert storage.inner key other value
  putIfAbsent_existed storage after key value written := by
    change (if _ then _ else _) = _ at written
    split at written <;> cases written
    rfl
  vacant storage key := storage.inner.lookup key = none
  put_vacant storage after key value written other apart free := by
    cases written
    rw [lookup_insert, if_neg]
    · exact free
    · rintro rfl
      exact apart (List.prefix_refl _)
  putIfAbsent_vacant storage after key value outcome written := by
    change (if _ then _ else _) = _ at written
    split at written
    · rename_i present
      cases written
      refine ⟨?_, fun other _ free => free⟩
      intro _ free
      rw [free] at present
      cases present
    · cases written
      refine ⟨nofun, ?_⟩
      intro other apart free
      rw [lookup_insert, if_neg]
      · exact free
      · rintro rfl
        exact apart (List.prefix_refl _)
  get_put storage after key value written other below _ := by
    cases written
    change Except.ok ((storage.inner.insert key value).lookup other) = .ok (storage.inner.lookup other)
    rw [lookup_insert, if_neg]
    rintro rfl
    exact below (List.prefix_refl _)
  list_put storage after key value written start cursor limit beside _ _ := by
    cases written
    change Except.ok (ListPage.of ((storage.inner.insert key value).keys.filter fun other => startsWithText other start)
      cursor limit) = .ok (.of (storage.inner.keys.filter fun other => startsWithText other start) cursor limit)
    congr 1
    apply ListPage.of_congr ((storage.inner.insert key value).keys_nodup.filter _) (storage.inner.keys_nodup.filter _)
    intro other
    rw [List.mem_filter, List.mem_filter]
    apply and_congr_left
    intro matching
    have apart : other ≠ key := by
      rintro rfl
      rw [matching] at beside
      cases beside
    rw [← AList.mem_keys, ← AList.mem_keys, ← AList.lookup_isSome, ← AList.lookup_isSome, lookup_insert, if_neg apart]
  delete_ok storage after key deleted := by
    cases deleted
    refine ⟨?_, ?_⟩
    · exact lookup_erase storage.inner key
    · intro absent
      have missing : key ∉ storage.inner.keys := by
        intro member
        rw [id] at absent
        exact absurd (AList.lookup_isSome.mpr (AList.mem_keys.mpr member)) (by simp [absent])
      intro start cursor limit
      rw [show storage.inner.erase key = storage.inner from AList.ext (List.kerase_of_notMem_keys missing)]
  list_ok storage start after limit page listed := by
    cases listed
    intro key member
    obtain ⟨stored, matching⟩ := List.mem_filter.mp (ListPage.mem_keys_of member)
    exact ⟨matching, AList.lookup_isSome.mpr (AList.mem_keys.mpr stored)⟩
  list_nodup storage start after limit page listed := by
    cases listed
    exact ListPage.nodup_of (storage.inner.keys_nodup.filter _) after limit
  shows _ _ := True
  list_complete storage start limit page listed short key matching present _ := by
    cases listed
    exact ListPage.mem_of_short short
      (List.mem_filter.mpr ⟨AList.mem_keys.mp (AList.lookup_isSome.mp present), matching⟩)

/-- The walk from the root comes to the path. -/
structure Walked (root path : List Name) : Prop where
  below : root <+: path
  entered : ∀ name ∈ (path.drop root.length).dropLast, name.text ≠ ".git"
  listed : ∀ name, path.getLast? = some name → containsText name.text ".tmp." = false

theorem mem_walk {storage : LocalStorage} {root path : List Name} :
    path ∈ storage.walk root ↔ storage.tree.shape path = some .file ∧ Walked root path := by
  unfold LocalStorage.walk
  rw [List.mem_filter, FileTree.mem_files]
  apply and_congr_right
  intro _
  simp only [Bool.and_eq_true, Bool.not_eq_true', decide_eq_true_eq, List.any_eq_false, beq_iff_eq]
  constructor
  · rintro ⟨⟨below, entered⟩, listed⟩
    refine ⟨below, entered, ?_⟩
    intro name last
    simpa [last] using listed
  · intro walked
    refine ⟨⟨walked.below, walked.entered⟩, ?_⟩
    cases last : path.getLast? with
    | none => rfl
    | some name => simpa using walked.listed name last

theorem scanRoot_dir (base : String) : LocalStorage.scanRoot (base ++ "/") = keyPath base := by
  unfold LocalStorage.scanRoot keyPath
  rw [← @String.append_empty (base ++ "/"), segments_append, show segments "" = [""] by decide, List.dropLast_concat]

/-- The keys that a listing goes through. -/
def keysFrom (storage : LocalStorage) (start : String) : List String :=
  ((storage.walk (LocalStorage.scanRoot start)).map joinPath).filter fun key => startsWithText key start

theorem nodup_keysFrom (storage : LocalStorage) (start : String) : (keysFrom storage start).Nodup :=
  ((storage.tree.nodup_files.filter _).map joinPath_injective).filter _

theorem mem_keysFrom {storage : LocalStorage} {start key : String} :
    key ∈ keysFrom storage start ↔ ∃ path, key = joinPath path ∧ storage.tree.shape path = some .file ∧
      Walked (LocalStorage.scanRoot start) path ∧ startsWithText key start = true := by
  unfold keysFrom
  rw [List.mem_filter, List.mem_map]
  constructor
  · intro ⟨⟨path, walked, same⟩, matching⟩
    obtain ⟨file, reached⟩ := mem_walk.mp walked
    exact ⟨path, same.symm, file, reached, matching⟩
  · intro ⟨path, same, file, reached, matching⟩
    exact ⟨⟨path, mem_walk.mpr ⟨file, reached⟩, same.symm⟩, matching⟩

/-- A scan root that is not there has nothing to walk. -/
theorem list_of_keys {storage : LocalStorage} {start : String}
    (apart : storage.tree.shape (LocalStorage.scanRoot start) ≠ some .file) (cursor : Option String) (limit : Nat) :
    storage.list start cursor limit = .ok (.of (keysFrom storage start) cursor limit) := by
  unfold LocalStorage.list
  cases found : storage.tree.lookup (LocalStorage.scanRoot start) with
  | none =>
    have empty : keysFrom storage start = [] := by
      apply List.eq_nil_iff_forall_not_mem.mpr
      intro key member
      obtain ⟨path, -, file, walked, -⟩ := mem_keysFrom.mp member
      obtain ⟨rest, rfl⟩ := walked.below
      obtain ⟨content, there⟩ := FileTree.shape_file_iff.mp file
      by_cases here : rest = []
      · rw [here, List.append_nil, found] at there
        cases there
      · rw [storage.tree.lookup_above there here] at found
        cases found
    rw [empty]
    cases cursor <;> simp [ListPage.of]
  | some entry =>
    cases entry with
    | file content => exact (apart (FileTree.shape_file_iff.mpr ⟨content, found⟩)).elim
    | dir => rfl

theorem list_of_file {storage : LocalStorage} {start : String}
    (file : storage.tree.shape (LocalStorage.scanRoot start) = some .file) (cursor : Option String) (limit : Nat) :
    storage.list start cursor limit = .error (.fromIo .notADirectory) := by
  obtain ⟨content, found⟩ := FileTree.shape_file_iff.mp file
  unfold LocalStorage.list
  rw [found]

/-- The files elsewhere are the same after a write. -/
theorem shape_file_write {storage : LocalStorage} {tree : FileTree Name Content} {written : List Name} {value : Content}
    (wrote : storage.tree.write written value = .ok tree) {path : List Name} (other : path ≠ written) :
    tree.shape path = some .file ↔ storage.tree.shape path = some .file := by
  obtain ⟨clear, -⟩ := FileTree.write_ok wrote
  rw [FileTree.shape_write wrote]
  unfold Shape.write
  rw [if_neg other]
  split
  · rename_i above
    exact ⟨nofun, fun file => (Shape.not_file_above clear above other file).elim⟩
  · exact Iff.rfl

private theorem list_of_write {storage : LocalStorage} {tree : FileTree Name Content} {key start : String}
    {value : Content} (wrote : storage.tree.write (keyPath key) value = .ok tree)
    (beside : startsWithText (joinPath (keyPath key)) start = false) (apart : ¬ keyPath key <+: keyPath start)
    (cursor : Option String) (limit : Nat) :
    (⟨tree⟩ : LocalStorage).list start cursor limit = storage.list start cursor limit := by
  have elsewhere : LocalStorage.scanRoot start ≠ keyPath key := by
    intro same
    apply apart
    rw [← same]
    exact (List.dropLast_prefix _).filterMap _
  by_cases file : storage.tree.shape (LocalStorage.scanRoot start) = some .file
  · rw [list_of_file file, list_of_file ((shape_file_write wrote elsewhere).mpr file)]
  · rw [list_of_keys file, list_of_keys fun other => file ((shape_file_write wrote elsewhere).mp other)]
    congr 1
    apply ListPage.of_congr (nodup_keysFrom _ start) (nodup_keysFrom storage start)
    intro other
    rw [mem_keysFrom, mem_keysFrom]
    apply exists_congr
    intro path
    apply and_congr_right
    intro same
    have distinct : startsWithText other start = true → path ≠ keyPath key := by
      rintro matching rfl
      rw [← same, matching] at beside
      cases beside
    constructor
    · intro ⟨there, walked, matching⟩
      exact ⟨(shape_file_write wrote (distinct matching)).mp there, walked, matching⟩
    · intro ⟨there, walked, matching⟩
      exact ⟨(shape_file_write wrote (distinct matching)).mpr there, walked, matching⟩

/-- The disk keeps the laws without its temporary files. With them it does where they meet no
other path. -/
instance : LawfulStorage LocalStorage where
  Place := List Name
  decEq := inferInstance
  place := keyPath
  path_of_place _ _ same := same
  view storage path := storage.tree.read path
  get_ok storage key found got := by
    change storage.get key = _ at got
    unfold LocalStorage.get at got
    cases clear : storage.tree.shape.clear (keyPath key) with
    | true =>
      rcases FileTree.resolve_clear clear with ⟨missing, absent⟩ | ⟨content, resolved, present⟩
      · rw [missing] at got
        cases got
        exact absent.symm
      · rw [resolved] at got
        cases got
        exact present.symm
    | false =>
      rcases FileTree.resolve_unclear clear with below | there
      · rw [below] at got
        cases got
      · rw [there] at got
        cases got
  put_ok storage after key value written := by
    change storage.put key value = _ at written
    unfold LocalStorage.put at written
    split at written
    · rename_i tree wrote
      cases written
      refine ⟨?_, FileTree.read_write wrote⟩
      have found := (FileTree.write_ok wrote).2 (keyPath key)
      rw [if_pos rfl] at found
      change LocalStorage.get ⟨tree⟩ key = _
      unfold LocalStorage.get FileTree.resolve
      rw [found]
    · cases written
  putIfAbsent_created storage after key value written := by
    change storage.putIfAbsent key value = _ at written
    unfold LocalStorage.putIfAbsent at written
    split at written
    · cases written
    · rename_i middle made
      split at written
      · rename_i tree created
        cases written
        obtain ⟨absent, lookups⟩ := FileTree.createNew_ok created
        have found := lookups (keyPath key)
        rw [if_pos rfl] at found
        refine ⟨?_, ?_, ?_⟩
        · rw [← FileTree.read_createDirAll made]
          unfold FileTree.read
          rw [absent]
          rfl
        · change LocalStorage.get ⟨tree⟩ key = _
          unfold LocalStorage.get FileTree.resolve
          rw [found]
        · intro path
          rw [← FileTree.read_createDirAll made]
          unfold FileTree.read
          rw [lookups path]
          split <;> rfl
      · cases written
      · cases written
  putIfAbsent_existed storage after key value written := by
    change storage.putIfAbsent key value = _ at written
    unfold LocalStorage.putIfAbsent at written
    split at written
    · cases written
    · rename_i middle made
      split at written <;> cases written
      exact FileTree.read_createDirAll made
  vacant storage key := storage.tree.lookup (keyPath key) = none
  put_vacant storage after key value written other apart free := by
    change storage.put key value = _ at written
    unfold LocalStorage.put at written
    split at written
    · rename_i tree wrote
      cases written
      rw [(FileTree.write_ok wrote).2, if_neg, if_neg apart]
      · exact free
      · intro same
        exact apart (same ▸ List.prefix_refl _)
    · cases written
  putIfAbsent_vacant storage after key value outcome written := by
    change storage.putIfAbsent key value = _ at written
    unfold LocalStorage.putIfAbsent at written
    split at written
    · cases written
    · rename_i middle made
      have unmade : ∀ other, ¬ keyPath other <+: keyPath key → storage.tree.lookup (keyPath other) = none →
          middle.lookup (keyPath other) = none := by
        intro other apart free
        rw [(FileTree.createDirAll_ok made).2, if_neg fun above => apart (above.trans (List.dropLast_prefix _))]
        exact free
      split at written
      · rename_i tree created
        cases written
        refine ⟨nofun, ?_⟩
        intro other apart free
        rw [(FileTree.createNew_ok created).2, if_neg]
        · exact unmade other apart free
        · intro same
          exact apart (same ▸ List.prefix_refl _)
      · rename_i refused
        cases written
        refine ⟨?_, unmade⟩
        intro _ free
        apply FileTree.createNew_alreadyExists refused
        rw [(FileTree.createDirAll_ok made).2, if_neg]
        · exact free
        · intro above
          have nonempty : keyPath key ≠ [] := by
            intro root
            rw [root, FileTree.lookup_root] at free
            cases free
          have shorter := above.length_le
          rw [List.length_dropLast] at shorter
          have := List.length_pos_iff.mpr nonempty
          omega
      · cases written
  get_put storage after key value written other below above := by
    change storage.put key value = _ at written
    unfold LocalStorage.put at written
    split at written
    · rename_i tree wrote
      cases written
      change LocalStorage.get ⟨tree⟩ other = storage.get other
      unfold LocalStorage.get
      rw [FileTree.resolve_write wrote below above]
    · cases written
  list_put storage after key value written start cursor limit _ beside apart := by
    change storage.put key value = _ at written
    unfold LocalStorage.put at written
    split at written
    · rename_i tree wrote
      cases written
      exact list_of_write wrote beside apart cursor limit
    · cases written
  delete_ok storage after key deleted := by
    change storage.delete key = _ at deleted
    unfold LocalStorage.delete at deleted
    split at deleted
    · rename_i tree removed
      cases deleted
      refine ⟨FileTree.read_removeFile removed, ?_⟩
      intro absent
      exact absurd (FileTree.removeFile_ok removed).1 (FileTree.read_none_iff.mp absent)
    · rename_i missing
      cases deleted
      have absent := FileTree.removeFile_error missing
      rw [if_pos rfl] at absent
      refine ⟨?_, fun _ _ _ _ => rfl⟩
      intro path
      split
      · rename_i here
        rw [here]
        unfold FileTree.read
        rw [absent.1]
        rfl
      · rfl
    · cases deleted
  list_ok storage start after limit page listed := by
    change storage.list start after limit = _ at listed
    unfold LocalStorage.list at listed
    split at listed
    · cases listed
      intro key member
      cases member
    · cases listed
    · cases listed
      intro key member
      obtain ⟨walked, matching⟩ := List.mem_filter.mp (ListPage.mem_keys_of member)
      obtain ⟨path, found, rfl⟩ := List.mem_map.mp walked
      refine ⟨matching, ?_⟩
      rw [keyPath_joinPath, FileTree.isSome_read]
      exact FileTree.mem_files.mp (List.mem_of_mem_filter found)
  list_nodup storage start after limit page listed := by
    change storage.list start after limit = _ at listed
    unfold LocalStorage.list at listed
    split at listed
    · cases listed
      exact List.nodup_nil
    · cases listed
    · cases listed
      refine ListPage.nodup_of (List.Nodup.filter _ ?_) after limit
      exact (storage.tree.nodup_files.filter _).map joinPath_injective
  shows start key := ∃ path, key = joinPath path ∧ Walked (LocalStorage.scanRoot start) path
  list_complete storage start limit page listed short key matching present shown := by
    obtain ⟨path, rfl, walked⟩ := shown
    rw [keyPath_joinPath, FileTree.isSome_read] at present
    change storage.list start none limit = _ at listed
    unfold LocalStorage.list at listed
    split at listed
    · rename_i missing
      obtain ⟨rest, rfl⟩ := walked.below
      obtain ⟨content, file⟩ := FileTree.shape_file_iff.mp present
      by_cases here : rest = []
      · rw [here, List.append_nil, missing] at file
        cases file
      · rw [storage.tree.lookup_above file here] at missing
        cases missing
    · cases listed
    · cases listed
      refine ListPage.mem_of_short short (List.mem_filter.mpr ⟨List.mem_map.mpr ⟨path, ?_, rfl⟩, matching⟩)
      exact mem_walk.mpr ⟨present, walked⟩

end Coral.Proofs

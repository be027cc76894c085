import Coral.Library.Machine
import Coral.Proofs.StorageLaws
import Coral.Proofs.StoreCalls

/-! The store on the disk, without its temporary files, against the one in memory. They answer
alike as long as no key has a name that the walk of the directories passes over. -/

namespace Coral.Proofs
open Coral.Library

inductive StoreCall where
  | put (key : String) (value : Content)
  | putIfAbsent (key : String) (value : Content)
  | get (key : String)
  | getMany (keys : List String)
  | delete (key : String)
  | list (start : String) (after : Option String) (limit : Nat)

inductive StoreAnswer where
  | done
  | outcome (outcome : PutOutcome)
  | found (value : Option Content)
  | all (values : List (Option Content))
  | page (page : ListPage)
  | failed (error : StorageError)
deriving DecidableEq

/-- One call, and the store that it leaves. -/
def answerCall {σ : Type} [AgentStorage σ] (storage : σ) : StoreCall → StoreAnswer × σ
  | .put key value =>
    match AgentStorage.put storage key value with
    | .ok after => (.done, after)
    | .error error => (.failed error, storage)
  | .putIfAbsent key value =>
    match AgentStorage.putIfAbsent storage key value with
    | .ok (outcome, after) => (.outcome outcome, after)
    | .error error => (.failed error, storage)
  | .get key =>
    match AgentStorage.get storage key with
    | .ok value => (.found value, storage)
    | .error error => (.failed error, storage)
  | .getMany keys =>
    match AgentStorage.getMany storage keys with
    | .ok values => (.all values, storage)
    | .error error => (.failed error, storage)
  | .delete key =>
    match AgentStorage.delete storage key with
    | .ok after => (.done, after)
    | .error error => (.failed error, storage)
  | .list start after limit =>
    match AgentStorage.list storage start after limit with
    | .ok page => (.page page, storage)
    | .error error => (.failed error, storage)

def storeCalls (σ : Type) [AgentStorage σ] : Machine σ StoreCall StoreAnswer :=
  ⟨fun storage call => some ((answerCall storage call).2, [(answerCall storage call).1])⟩

/-- A prefix to list: a directory, and what the names in it begin with. -/
structure Scope where
  dir : List Name
  fragment : String
  plain : '/' ∉ fragment.toList

def below (dir : List Name) (rest : String) : String := dir.foldr (fun name rest => name.text ++ "/" ++ rest) rest

def Scope.text (scope : Scope) : String := below scope.dir scope.fragment

/-- The keys that are used, none of which lies below another, and the prefixes that are listed. -/
structure Keyspace where
  keys : String → Prop
  scopes : Scope → Prop
  plain : ∀ key, keys key → ∃ path, path ≠ [] ∧ key = joinPath path
  apart : ∀ key other, keys key → keys other → keyPath key <+: keyPath other → key = other

def Keyspace.Uses (space : Keyspace) : StoreCall → Prop
  | .put key _ | .putIfAbsent key _ | .get key | .delete key => space.keys key
  | .getMany keys => ∀ key ∈ keys, space.keys key
  | .list start _ _ => ∃ scope, space.scopes scope ∧ start = scope.text

/-- What the walk from the root passes over. -/
def Hidden (root path : List Name) : Prop :=
  (∃ name ∈ (path.drop root.length).dropLast, name.text = ".git") ∨
    ∃ name, path.getLast? = some name ∧ containsText name.text ".tmp." = true

instance (root path : List Name) : Decidable (Hidden root path) :=
  decidable_of_iff (((path.drop root.length).dropLast.any fun name => name.text = ".git") = true ∨
    path.getLast?.any (fun name => containsText name.text ".tmp.") = true) (by
      unfold Hidden
      rw [List.any_eq_true, Option.any_eq_true]
      simp)

/-- The walk shows every key, and comes to no key where it looks for a directory. -/
def Keyspace.Shown (space : Keyspace) : Prop :=
  ∀ scope, space.scopes scope → ¬ space.keys (joinPath scope.dir) ∧
    ∀ key, space.keys key → startsWithText key scope.text = true → ¬ Hidden scope.dir (keyPath key)

section Scopes

theorem below_append (dir : List Name) (rest more : String) : below dir rest ++ more = below dir (rest ++ more) := by
  induction dir with
  | nil => rfl
  | cons name dir ih =>
    change name.text ++ "/" ++ below dir rest ++ more = name.text ++ "/" ++ below dir (rest ++ more)
    rw [String.append_assoc, ih]

theorem segments_below (dir : List Name) (rest : String) : segments (below dir rest) = dir.map (·.text) ++ segments rest := by
  induction dir with
  | nil => rfl
  | cons name dir ih =>
    change segments (name.text ++ "/" ++ below dir rest) = _
    have single : segments name.text = [name.text] := @segments_joinPath [name] (by simp)
    rw [segments_append, ih, single]
    rfl

theorem scanRoot_text (scope : Scope) : LocalStorage.scanRoot scope.text = scope.dir := by
  unfold LocalStorage.scanRoot Scope.text
  have single : segments scope.fragment = [scope.fragment] := by
    unfold segments
    rw [List.splitOn_eq_singleton scope.plain, List.map_singleton, String.ofList_toList]
  rw [segments_below, single, List.dropLast_concat, List.filterMap_map]
  simp

theorem dir_above {scope : Scope} {key : String} (matching : startsWithText key scope.text = true) :
    scope.dir <+: keyPath key := by
  obtain ⟨more, whole⟩ := List.isPrefixOf_iff_prefix.mp matching
  have split : key = below scope.dir (scope.fragment ++ String.ofList more) := by
    rw [← below_append]
    apply String.toList_inj.mp
    rw [String.toList_append, String.toList_ofList]
    exact whole.symm
  rw [split]
  unfold keyPath
  rw [segments_below, List.filterMap_append, List.filterMap_map]
  simp

theorem walked_iff {root path : List Name} (above : root <+: path) : Walked root path ↔ ¬ Hidden root path := by
  unfold Hidden
  rw [not_or]
  constructor
  · intro walked
    refine ⟨?_, ?_⟩
    · intro ⟨name, between, git⟩
      exact walked.entered name between git
    · intro ⟨name, last, temporary⟩
      rw [walked.listed name last] at temporary
      cases temporary
  · intro ⟨entered, listed⟩
    refine ⟨above, ?_, ?_⟩
    · exact fun name between git => entered ⟨name, between, git⟩
    · intro name last
      rw [Bool.eq_false_iff]
      exact fun temporary => listed ⟨name, last, temporary⟩

end Scopes

/-- The disk has a file for every key in memory, and its directories lead to keys. -/
structure Mirrors (space : Keyspace) (disk : LocalStorage) (memory : MemoryStorage) : Prop where
  same : ∀ key, space.keys key → disk.tree.read (keyPath key) = memory.inner.lookup key
  stored : ∀ key ∈ memory.inner.keys, space.keys key
  files : ∀ path, disk.tree.shape path = some .file → space.keys (joinPath path)
  dirs : ∀ path, disk.tree.shape path = some .dir →
    path = [] ∨ ∃ key, space.keys key ∧ path <+: keyPath key ∧ path ≠ keyPath key

section Mirrors

variable {space : Keyspace} {disk : LocalStorage} {memory : MemoryStorage} {key : String}

theorem Mirrors.empty (space : Keyspace) : Mirrors space ⟨.empty⟩ ⟨∅⟩ where
  same key used := by
    obtain ⟨path, nonempty, rfl⟩ := space.plain key used
    exact FileTree.read_empty _
  stored key member := absurd member List.not_mem_nil
  files path file := by
    obtain ⟨content, found⟩ := FileTree.shape_file_iff.mp file
    rw [FileTree.lookup_empty] at found
    split at found <;> cases found
  dirs path dir := by
    have found := FileTree.shape_dir_iff.mp dir
    rw [FileTree.lookup_empty] at found
    split at found
    · rename_i root
      exact .inl root
    · cases found

theorem Keyspace.nonempty {space : Keyspace} (used : space.keys key) : keyPath key ≠ [] := by
  obtain ⟨path, nonempty, rfl⟩ := space.plain key used
  rw [keyPath_joinPath]
  exact nonempty

theorem Keyspace.joined {space : Keyspace} (used : space.keys key) : joinPath (keyPath key) = key := by
  obtain ⟨path, -, rfl⟩ := space.plain key used
  rw [keyPath_joinPath]

theorem Keyspace.keyPath_injective {space : Keyspace} {other : String} (used : space.keys key) (used' : space.keys other)
    (same : keyPath key = keyPath other) : key = other := space.apart key other used used' (same ▸ List.prefix_refl _)

theorem Mirrors.clear (mirrors : Mirrors space disk memory) (used : space.keys key) :
    disk.tree.shape.clear (keyPath key) = true := by
  unfold Shape.clear
  rw [Bool.and_eq_true, decide_eq_true_eq, Bool.not_eq_true']
  constructor
  · intro dir
    rcases mirrors.dirs _ dir with root | ⟨other, used', above, proper⟩
    · exact Keyspace.nonempty used root
    · exact proper (congrArg keyPath (space.apart key other used used' above))
  · rw [Bool.eq_false_iff]
    intro blocked
    obtain ⟨above, earlier, file⟩ := Shape.blocked_iff.mp blocked
    have used' := mirrors.files above file
    have reaches : keyPath (joinPath above) <+: keyPath key := by
      rw [keyPath_joinPath]
      exact earlier.trans (List.dropLast_prefix _)
    have same := congrArg keyPath (space.apart _ key used' used reaches)
    rw [keyPath_joinPath] at same
    have shorter := earlier.length_le
    rw [same, List.length_dropLast] at shorter
    have := List.length_pos_iff.mpr (Keyspace.nonempty used)
    omega

/-- What a call changes on the disk it changes in memory. -/
private theorem Mirrors.change (mirrors : Mirrors space disk memory) (used : space.keys key) {after : LocalStorage}
    {inner : AList fun _ : String => Content} (value : Option Content)
    (reads : ∀ path, after.tree.read path = if path = keyPath key then value else disk.tree.read path)
    (lookups : ∀ other, inner.lookup other = if other = key then value else memory.inner.lookup other)
    (shapes : ∀ path, after.tree.shape path = some .dir →
      disk.tree.shape path = some .dir ∨ path <+: keyPath key ∧ path ≠ keyPath key) : Mirrors space after ⟨inner⟩ where
  same other used' := by
    rw [reads, lookups, mirrors.same other used']
    by_cases here : other = key
    · rw [if_pos here, if_pos (congrArg keyPath here)]
    · rw [if_neg here, if_neg fun same => here (Keyspace.keyPath_injective used' used same)]
  stored other member := by
    have there := AList.lookup_isSome.mpr (AList.mem_keys.mpr member)
    rw [lookups] at there
    split at there
    · rename_i here
      exact here ▸ used
    · exact mirrors.stored other (AList.mem_keys.mp (AList.lookup_isSome.mp there))
  files path file := by
    have there := FileTree.isSome_read.mpr file
    rw [reads] at there
    split at there
    · rename_i here
      rw [here, Keyspace.joined used]
      exact used
    · exact mirrors.files path (FileTree.isSome_read.mp there)
  dirs path dir := by
    rcases shapes path dir with before | ⟨above, proper⟩
    · exact mirrors.dirs path before
    · exact .inr ⟨key, used, above, proper⟩

theorem Mirrors.get (mirrors : Mirrors space disk memory) (used : space.keys key) :
    AgentStorage.get disk key = .ok (memory.inner.lookup key) := by
  rw [← mirrors.same key used]
  exact raw_ok (get_clear (mirrors.clear used))

theorem Mirrors.put (mirrors : Mirrors space disk memory) (used : space.keys key) (value : Content) :
    ∃ after, AgentStorage.put disk key value = .ok after ∧ Mirrors space after ⟨memory.inner.insert key value⟩ := by
  obtain ⟨after, written, wrote⟩ := put_clear (mirrors.clear used) value
  refine ⟨after, raw_ok written, mirrors.change used (some value) (FileTree.read_write wrote) ?_ ?_⟩
  · exact fun other => lookup_insert memory.inner key other value
  · intro path dir
    rw [FileTree.shape_write wrote] at dir
    unfold Shape.write at dir
    split at dir
    · cases dir
    · rename_i proper
      split at dir
      · rename_i above
        exact .inr ⟨above, proper⟩
      · exact .inl dir

theorem Mirrors.delete (mirrors : Mirrors space disk memory) (used : space.keys key) :
    ∃ after, AgentStorage.delete disk key = .ok after ∧ Mirrors space after ⟨memory.inner.erase key⟩ := by
  obtain ⟨after, deleted, shape, lookups⟩ := delete_clear (mirrors.clear used)
  refine ⟨after, raw_ok deleted, mirrors.change used none ?_ ?_ ?_⟩
  · intro path
    unfold FileTree.read
    rw [lookups]
    split <;> rfl
  · exact fun other => lookup_erase memory.inner key other
  · intro path dir
    rw [shape] at dir
    unfold Shape.remove at dir
    split at dir
    · cases dir
    · exact .inl dir

theorem Mirrors.putIfAbsent (mirrors : Mirrors space disk memory) (used : space.keys key) (value : Content) :
    ∃ after, Mirrors space after (if (memory.inner.lookup key).isSome then memory else ⟨memory.inner.insert key value⟩) ∧
      AgentStorage.putIfAbsent disk key value =
        .ok (if (memory.inner.lookup key).isSome then .existed else .created, after) := by
  have clear := mirrors.clear used
  have nonempty := Keyspace.nonempty used
  have parent : ¬ keyPath key <+: (keyPath key).dropLast := by
    intro above
    have shorter := above.length_le
    rw [List.length_dropLast] at shorter
    have := List.length_pos_iff.mpr nonempty
    omega
  obtain ⟨middle, made⟩ : ∃ middle, disk.tree.createDirAll (keyPath key).dropLast = .ok middle := by
    cases created : disk.tree.createDirAll (keyPath key).dropLast with
    | ok middle => exact ⟨middle, rfl⟩
    | error errno =>
      unfold Shape.clear at clear
      rw [FileTree.createDirAll_error created] at clear
      simp at clear
  obtain ⟨-, lookups⟩ := FileTree.createDirAll_ok made
  have dirs : ∀ path, middle.shape path = some .dir →
      disk.tree.shape path = some .dir ∨ path <+: keyPath key ∧ path ≠ keyPath key := by
    intro path dir
    by_cases above : path <+: (keyPath key).dropLast
    · exact .inr ⟨above.trans (List.dropLast_prefix _), fun same => parent (same ▸ above)⟩
    · rw [FileTree.shape_dir_iff, lookups, if_neg above, ← FileTree.shape_dir_iff] at dir
      exact .inl dir
  have here : middle.lookup (keyPath key) = disk.tree.lookup (keyPath key) := by rw [lookups, if_neg parent]
  have met := mirrors.same key used
  change ∃ after, _ ∧ disk.putIfAbsent key value = _
  simp only [LocalStorage.putIfAbsent, made]
  cases found : disk.tree.lookup (keyPath key) with
  | none =>
    have absent : memory.inner.lookup key = none := by
      rw [← met]
      unfold FileTree.read
      rw [found]
      rfl
    have dir : middle.shape (keyPath key).dropLast = some .dir := by
      rw [FileTree.shape_dir_iff, lookups, if_pos (List.prefix_refl _)]
    obtain ⟨tree, created⟩ := FileTree.createNew_absent (here.trans found) dir value
    have after := (FileTree.createNew_ok created).2
    rw [created, absent]
    refine ⟨⟨tree⟩, mirrors.change used (some value) ?_ (fun other => lookup_insert memory.inner key other value) ?_, rfl⟩
    · intro path
      rw [← FileTree.read_createDirAll made]
      unfold FileTree.read
      rw [after]
      split <;> rfl
    · intro path dir
      rw [FileTree.shape_dir_iff, after] at dir
      split at dir
      · cases dir
      · exact dirs path (FileTree.shape_dir_iff.mpr dir)
  | some entry =>
    have present : (memory.inner.lookup key).isSome = true := by
      rw [← met, FileTree.isSome_read]
      cases entry with
      | file content => exact FileTree.shape_file_iff.mpr ⟨content, found⟩
      | dir =>
        unfold Shape.clear at clear
        simp [FileTree.shape_dir_iff.mpr found] at clear
    rw [FileTree.createNew_present (here.trans found), if_pos present, if_pos present]
    refine ⟨⟨middle⟩, ?_, rfl⟩
    refine ⟨?_, mirrors.stored, ?_, ?_⟩
    · intro other used'
      rw [FileTree.read_createDirAll made]
      exact mirrors.same other used'
    · intro path file
      rw [← FileTree.isSome_read, FileTree.read_createDirAll made, FileTree.isSome_read] at file
      exact mirrors.files path file
    · intro path dir
      rcases dirs path dir with before | ⟨above, proper⟩
      · exact mirrors.dirs path before
      · exact .inr ⟨key, used, above, proper⟩

theorem Mirrors.list (mirrors : Mirrors space disk memory) {scope : Scope} (listed : space.scopes scope)
    (shown : space.Shown) (after : Option String) (limit : Nat) :
    AgentStorage.list disk scope.text after limit = AgentStorage.list memory scope.text after limit := by
  obtain ⟨apart, visible⟩ := shown scope listed
  have dir : disk.tree.shape (LocalStorage.scanRoot scope.text) ≠ some .file := by
    rw [scanRoot_text]
    exact fun file => apart (mirrors.files _ file)
  change disk.list scope.text after limit =
    .ok (.of (memory.inner.keys.filter fun key => startsWithText key scope.text) after limit)
  rw [list_of_keys dir]
  congr 1
  apply ListPage.of_congr (nodup_keysFrom disk _) (memory.inner.keys_nodup.filter _)
  intro key
  rw [mem_keysFrom, List.mem_filter, ← AList.mem_keys, ← AList.lookup_isSome, scanRoot_text]
  constructor
  · intro ⟨path, same, file, walked, matching⟩
    have used : space.keys key := same ▸ mirrors.files path file
    refine ⟨?_, matching⟩
    rw [← mirrors.same key used, FileTree.isSome_read, same, keyPath_joinPath]
    exact file
  · intro ⟨there, matching⟩
    have used := mirrors.stored key (AList.mem_keys.mp (AList.lookup_isSome.mp there))
    rw [← mirrors.same key used, FileTree.isSome_read] at there
    exact ⟨keyPath key, (Keyspace.joined used).symm, there,
      (walked_iff (dir_above matching)).mpr (visible key used matching), matching⟩

theorem Mirrors.getMany (mirrors : Mirrors space disk memory) {keys : List String} (used : ∀ key ∈ keys, space.keys key) :
    AgentStorage.getMany disk keys = .ok (keys.map memory.inner.lookup) := by
  unfold AgentStorage.getMany
  induction keys with
  | nil => rfl
  | cons key keys ih =>
    rw [List.forall_mem_cons] at used
    rw [List.mapM_cons, mirrors.get used.1, ih used.2]
    rfl

end Mirrors

end Coral.Proofs

import Coral.Library.FileTree
import Coral.Node.Health
import Coral.Node.Text
import Mathlib.Data.List.Sort

/-! `AgentStorage`, the keyed store under an agent's file system, and its two backends. On the
disk a call fails only because of the shape of the path, and a put leaves no trace beside its key. -/

namespace Coral
open Coral.Library

structure TailEntry where
  filename : String
  addedAt : DateTime
deriving DecidableEq

structure TailObject where
  entries : List TailEntry := []
deriving DecidableEq

structure EvidenceId where
  hex : String
deriving DecidableEq

structure EvidenceRecord where
  id : EvidenceId
  tool : String
  args : Json
  result : Json
  createdAt : DateTime
deriving DecidableEq

/-- The bytes of a value, by what they were written from. The model only writes texts. -/
inductive Content where
  | text (body : String)
  | tail (object : TailObject)
  | evidence (record : EvidenceRecord)
  | json (value : Json)
deriving DecidableEq

inductive PutOutcome where
  | created
  | existed
deriving DecidableEq

structure ListPage where
  keys : List String
  nextCursor : Option String
deriving DecidableEq

inductive StorageError where
  | notFound (text : String)
  | conflict (text : String)
  | transient (text : String)
  | permanent (text : String)
  | other (text : String)
deriving DecidableEq

namespace StorageError

def toString : StorageError → String
  | .notFound text => "key not found: " ++ text
  | .conflict text => "conflict on key: " ++ text
  | .transient text => "transient storage error: " ++ text
  | .permanent text => "permanent storage error: " ++ text
  | .other text => text

def fromIo : Errno → StorageError
  | .notFound => .notFound "No such file or directory (os error 2)"
  | .alreadyExists => .conflict "File exists (os error 17)"
  | .notADirectory => .other "Not a directory (os error 20)"
  | .isADirectory => .other "Is a directory (os error 21)"

end StorageError

/-- A call that fails leaves the store as it was. -/
class AgentStorage (σ : Type) where
  put : σ → String → Content → Except StorageError σ
  putIfAbsent : σ → String → Content → Except StorageError (PutOutcome × σ)
  get : σ → String → Except StorageError (Option Content)
  delete : σ → String → Except StorageError σ
  list : σ → String → Option String → Nat → Except StorageError ListPage

def AgentStorage.getMany {σ : Type} [AgentStorage σ] (storage : σ) (keys : List String) :
    Except StorageError (List (Option Content)) :=
  keys.mapM (get storage)

def usizeMax : Nat := 2 ^ 64 - 1

/-- The keys in ascending order, after the cursor, up to the limit. -/
def ListPage.of (keys : List String) (after : Option String) (limit : Nat) : ListPage :=
  let sorted : List String := keys.insertionSort fun first second => first.toList ≤ second.toList
  let rest : List String := match after with
    | some after => sorted.filter fun key => decide (after.toList < key.toList)
    | none => sorted
  let page := rest.take limit
  ⟨page, if limit < rest.length then page.getLast? else none⟩

theorem ListPage.mem_keys_of {keys : List String} {after : Option String} {limit : Nat} {key : String}
    (member : key ∈ (ListPage.of keys after limit).keys) : key ∈ keys := by
  have kept := List.mem_of_mem_take member
  cases after with
  | none => exact (List.mem_insertionSort _).mp kept
  | some after => exact (List.mem_insertionSort _).mp (List.mem_of_mem_filter kept)

theorem ListPage.nodup_of {keys : List String} (distinct : keys.Nodup) (after : Option String) (limit : Nat) :
    (ListPage.of keys after limit).keys.Nodup := by
  have sorted := (List.perm_insertionSort (fun first second : String => first.toList ≤ second.toList) keys).nodup_iff.mpr
    distinct
  cases after with
  | none => exact sorted.sublist (List.take_sublist _ _)
  | some after => exact (sorted.filter _).sublist (List.take_sublist _ _)

/-- A page that is not full leaves nothing out. -/
theorem ListPage.mem_of_short {keys : List String} {limit : Nat} (short : (ListPage.of keys none limit).keys.length < limit)
    {key : String} (member : key ∈ keys) : key ∈ (ListPage.of keys none limit).keys := by
  unfold ListPage.of at short ⊢
  simp only [List.length_take] at short ⊢
  rw [List.take_of_length_le (by omega)]
  exact (List.mem_insertionSort _).mpr member

/-- `sort` on texts. -/
theorem pairwise_sorted (texts : List String) :
    (texts.insertionSort fun first second => first.toList ≤ second.toList).Pairwise
      fun first second => first.toList ≤ second.toList := by
  have : Std.Total fun first second : String => first.toList ≤ second.toList := ⟨fun _ _ => le_total _ _⟩
  have : IsTrans String fun first second => first.toList ≤ second.toList := ⟨fun _ _ _ => le_trans⟩
  exact List.pairwise_insertionSort _ texts

/-- The order that texts were found in is lost. -/
theorem sorted_congr {first second : List String} (distinct : first.Nodup) (apart : second.Nodup)
    (same : ∀ text, text ∈ first ↔ text ∈ second) :
    (first.insertionSort fun text other => text.toList ≤ other.toList) =
      second.insertionSort fun text other => text.toList ≤ other.toList := by
  apply List.Perm.eq_of_pairwise _ (pairwise_sorted first) (pairwise_sorted second)
  · apply ((List.perm_insertionSort _ first).trans _).trans (List.perm_insertionSort _ second).symm
    exact (List.perm_ext_iff_of_nodup distinct apart).mpr same
  · intro text other _ _ before later
    exact String.toList_inj.mp (le_antisymm before later)

/-- A page depends on which keys there are, not on the order they are found in. -/
theorem ListPage.of_congr {first second : List String} (distinct : first.Nodup) (apart : second.Nodup)
    (same : ∀ key, key ∈ first ↔ key ∈ second) (after : Option String) (limit : Nat) :
    ListPage.of first after limit = ListPage.of second after limit := by
  unfold ListPage.of
  rw [sorted_congr distinct apart same]

structure MemoryStorage where
  inner : AList fun _ : String => Content

namespace MemoryStorage

instance : AgentStorage MemoryStorage where
  put storage key value := .ok ⟨storage.inner.insert key value⟩
  putIfAbsent storage key value :=
    if (storage.inner.lookup key).isSome then .ok (.existed, storage)
    else .ok (.created, ⟨storage.inner.insert key value⟩)
  get storage key := .ok (storage.inner.lookup key)
  delete storage key := .ok ⟨storage.inner.erase key⟩
  list storage start after limit := .ok (.of (storage.inner.keys.filter fun key => startsWithText key start) after limit)

end MemoryStorage

structure LocalStorage where
  tree : FileTree Name Content

namespace LocalStorage

/-- The directory part of a listing's prefix. -/
def scanRoot (start : String) : List Name := (segments start).dropLast.filterMap Name.ofText

/-- What the walk from the scan root comes to: it enters no directory called `.git`, and
leaves the temporary files of `put` out. -/
def walk (storage : LocalStorage) (root : List Name) : List (List Name) :=
  storage.tree.files.filter fun path =>
    decide (root <+: path) && !((path.drop root.length).dropLast.any (·.text == ".git")) &&
      !(path.getLast?.any fun name => containsText name.text ".tmp.")

/-- A file is in place by the rename of a temporary file, whose name is of this process and of
this call alone. What else may be at that name is left out here, and is in `LocalDisk`. -/
def put (storage : LocalStorage) (key : String) (value : Content) : Except StorageError LocalStorage :=
  match storage.tree.write (keyPath key) value with
  | .ok tree => .ok ⟨tree⟩
  | .error errno => .error (.fromIo errno)

def putIfAbsent (storage : LocalStorage) (key : String) (value : Content) :
    Except StorageError (PutOutcome × LocalStorage) :=
  match storage.tree.createDirAll (keyPath key).dropLast with
  | .error errno => .error (.fromIo errno)
  | .ok tree =>
    match tree.createNew (keyPath key) value with
    | .ok tree => .ok (.created, ⟨tree⟩)
    | .error .alreadyExists => .ok (.existed, ⟨tree⟩)
    | .error errno => .error (.fromIo errno)

/-- A key that ends with a slash is an agent's own directory, never a file. -/
def get (storage : LocalStorage) (key : String) : Except StorageError (Option Content) :=
  match storage.tree.resolve (keyPath key) with
  | .ok (.file content) => .ok (some content)
  | .ok .dir => .error (.fromIo .isADirectory)
  | .error .notFound => .ok none
  | .error errno => .error (.fromIo errno)

def delete (storage : LocalStorage) (key : String) : Except StorageError LocalStorage :=
  match storage.tree.removeFile (keyPath key) with
  | .ok tree => .ok ⟨tree⟩
  | .error .notFound => .ok storage
  | .error errno => .error (.fromIo errno)

/-- A scan root that is missing or lies below a file does not exist; one that is a file
cannot be read as a directory. -/
def list (storage : LocalStorage) (start : String) (after : Option String) (limit : Nat) :
    Except StorageError ListPage :=
  match storage.tree.lookup (scanRoot start) with
  | none => .ok ⟨[], none⟩
  | some (.file _) => .error (.fromIo .notADirectory)
  | some .dir =>
    let keys := (storage.walk (scanRoot start)).map joinPath
    .ok (.of (keys.filter fun key => startsWithText key start) after limit)

instance : AgentStorage LocalStorage := ⟨put, putIfAbsent, get, delete, list⟩

end LocalStorage

end Coral

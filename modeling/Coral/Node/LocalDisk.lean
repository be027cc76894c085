import Coral.Node.LocalWrites

/-! The on-disk store with what lies beside its keys: the temporary file of each `put`, named
after the process and a count of its calls, and the names that the operating system refuses. -/

namespace Coral
open Coral.Library

/-- `refusal` is what the system answers to a path that it does not take. -/
structure LocalDisk where
  tree : FileTree Name Content
  pid : UInt32
  tmpCounter : UInt64
  refusal : FileTree Name Content → List Name → Option StorageError

/-- `tmp_path_for`. -/
def tmpPathFor (path : List Name) (pid : UInt32) (counter : UInt64) : List Name :=
  path.dropLast ++ (path.getLast?.map fun name => tmpName name pid.toNat counter.toNat).toList

namespace LocalDisk

/-- The store without its temporary files. -/
def store (disk : LocalDisk) : LocalStorage := ⟨disk.tree⟩

def tmpPath (disk : LocalDisk) (path : List Name) : List Name := tmpPathFor path disk.pid disk.tmpCounter

/-- A file that is at the temporary path already is truncated, and moved away. A call that fails
also takes a number, and may leave directories behind; nothing is said of a disk after it. -/
def put (disk : LocalDisk) (key : String) (value : Content) : Except StorageError LocalDisk :=
  let path := keyPath key
  match disk.tree.createDirAll path.dropLast with
  | .error errno => .error (.fromIo errno)
  | .ok made =>
    match disk.refusal made (disk.tmpPath path) with
    | some refused => .error refused
    | none =>
      match disk.tree.writeVia (disk.tmpPath path) path value with
      | .ok tree => .ok { disk with tree, tmpCounter := disk.tmpCounter + 1 }
      | .error errno => .error (.fromIo errno)

def putIfAbsent (disk : LocalDisk) (key : String) (value : Content) : Except StorageError (PutOutcome × LocalDisk) :=
  match disk.tree.createDirAll (keyPath key).dropLast with
  | .error errno => .error (.fromIo errno)
  | .ok made =>
    match disk.refusal made (keyPath key) with
    | some refused => .error refused
    | none => (disk.store.putIfAbsent key value).map fun (outcome, after) => (outcome, { disk with tree := after.tree })

def get (disk : LocalDisk) (key : String) : Except StorageError (Option Content) :=
  match disk.refusal disk.tree (keyPath key) with
  | some refused => .error refused
  | none => disk.store.get key

def delete (disk : LocalDisk) (key : String) : Except StorageError LocalDisk :=
  match disk.refusal disk.tree (keyPath key) with
  | some refused => .error refused
  | none => (disk.store.delete key).map fun after => { disk with tree := after.tree }

/-- A scan root that the system refuses does not exist. -/
def list (disk : LocalDisk) (start : String) (after : Option String) (limit : Nat) : Except StorageError ListPage :=
  disk.store.list start after limit

instance : AgentStorage LocalDisk := ⟨put, putIfAbsent, get, delete, list⟩

end LocalDisk

def NAME_MAX : Nat := 255

def PATH_MAX : Nat := 4096

/-- The bytes of the path of a key under a root of so many bytes. -/
def pathBytes (rootBytes : Nat) (path : List Name) : Nat := rootBytes + (path.map fun name => name.text.utf8ByteSize + 1).sum

/-- Linux takes no NUL and no path of `PATH_MAX` bytes, whatever is there. A name of more than
`NAME_MAX` bytes is not taken where it is looked up, which is in a directory that exists. -/
def linux (rootBytes : Nat) (tree : FileTree Name Content) (path : List Name) : Option StorageError :=
  if path.any fun name => name.text.toList.contains '\x00' then
    some (.other "file name contained an unexpected NUL byte")
  else if PATH_MAX ≤ pathBytes rootBytes path then some (.other "File name too long (os error 36)")
  else
    let short := path.takeWhile fun name => name.text.utf8ByteSize ≤ NAME_MAX
    if short ≠ path ∧ tree.shape short = some .dir then some (.other "File name too long (os error 36)") else none

end Coral

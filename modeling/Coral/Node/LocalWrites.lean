import Coral.Library.Machine
import Coral.Node.Storage

/-! The two writes of the on-disk store, one system call after another and byte by byte. A
process may stop before any of them, and any of them may fail. -/

namespace Coral
open Coral.Library

abbrev Bytes := List UInt8

/-- The temporary file is named after the process and the call. -/
inductive WriteCall where
  | put (pid counter : Nat)
  | putIfAbsent
deriving DecidableEq

inductive WritePhase where
  | called
  | parentMade
  | opened (rest : Bytes)
  | synced
  /-- A call failed, and the file is to be removed. -/
  | broken
  /-- The answer, unless it is an error. -/
  | ended (outcome : Option PutOutcome)
deriving DecidableEq

inductive WriteEvent where
  | proceed
  /-- `write` takes so many of the bytes. -/
  | write (count : Nat)
  | fail

def tmpSuffix (pid counter : Nat) : String := ".tmp." ++ toString pid ++ "." ++ toString counter

theorem slash_tmpSuffix (pid counter : Nat) : '/' ∉ (tmpSuffix pid counter).toList := by
  have digits : ∀ number : Nat, '/' ∉ (toString number).toList := by
    intro number member
    have among : '/' ∈ Nat.toDigits 10 number := by simpa [Nat.repr] using member
    have digit := Nat.isDigit_of_mem_toDigits (by omega) (by omega) among
    revert digit
    decide
  unfold tmpSuffix
  simp only [String.toList_append, List.mem_append, not_or]
  exact ⟨⟨⟨by decide, digits pid⟩, by decide⟩, digits counter⟩

/-- `tmp_path_for` of a path with a file name. -/
def tmpName (name : Name) (pid counter : Nat) : Name where
  text := name.text ++ tmpSuffix pid counter
  plain := by
    have long : 5 ≤ (name.text ++ tmpSuffix pid counter).toList.length := by
      unfold tmpSuffix
      simp only [String.toList_append, List.length_append]
      have : ".tmp.".toList.length = 5 := rfl
      omega
    have other : ∀ text : String, text.toList.length < 5 → name.text ++ tmpSuffix pid counter ≠ text := by
      rintro text short rfl
      omega
    refine ⟨other "" (by decide), other "." (by decide), other ".." (by decide), ?_⟩
    rw [String.toList_append, List.mem_append, not_or]
    exact ⟨name.plain.2.2.2, slash_tmpSuffix pid counter⟩

theorem tmpName_ne (name : Name) (pid counter : Nat) : tmpName name pid counter ≠ name := by
  intro same
  have texts := congrArg (fun name : Name => name.text.toList.length) same
  simp only [tmpName, tmpSuffix, String.toList_append, List.length_append] at texts
  have : ".tmp.".toList.length = 5 := rfl
  omega

/-- The file that the call writes to. -/
def WriteCall.file (dir : List Name) (name : Name) : WriteCall → List Name
  | .put pid counter => dir ++ [tmpName name pid counter]
  | .putIfAbsent => dir ++ [name]

def writeStep (call : WriteCall) (dir : List Name) (name : Name) (value : Bytes) (tree : FileTree Name Bytes) :
    WritePhase → WriteEvent → Option (FileTree Name Bytes × WritePhase)
  | .called, .proceed =>
    match tree.createDirAll dir with
    | .ok tree => some (tree, .parentMade)
    | .error _ => some (tree, .ended none)
  | .parentMade, .proceed =>
    match call with
    | .put _ _ =>
      match tree.create (call.file dir name) [] with
      | .ok tree => some (tree, .opened value)
      | .error _ => some (tree, .ended none)
    | .putIfAbsent =>
      match tree.createNew (dir ++ [name]) [] with
      | .ok tree => some (tree, .opened value)
      | .error .alreadyExists => some (tree, .ended (some .existed))
      | .error _ => some (tree, .ended none)
  | .opened rest, .write count =>
    if 0 < count ∧ count ≤ rest.length then
      some (tree.modify (call.file dir name) (· ++ rest.take count), .opened (rest.drop count))
    else none
  | .opened [], .proceed => some (tree, .synced)
  | .opened _, .fail => some (tree, .broken)
  | .synced, .proceed =>
    match call with
    | .put _ _ =>
      match tree.move (call.file dir name) (dir ++ [name]) with
      | .ok tree => some (tree, .ended (some .created))
      | .error _ => some (tree, .broken)
    | .putIfAbsent => some (tree, .ended (some .created))
  | .synced, .fail => if call = .putIfAbsent then none else some (tree, .broken)
  | .broken, .proceed =>
    match tree.removeFile (call.file dir name) with
    | .ok tree => some (tree, .ended none)
    | .error _ => some (tree, .ended none)
  | .called, .fail | .parentMade, .fail | .broken, .fail => some (tree, .ended none)
  | _, _ => none

def writing (call : WriteCall) (dir : List Name) (name : Name) (value : Bytes) :
    Machine (FileTree Name Bytes × WritePhase) WriteEvent Unit :=
  ⟨fun (tree, phase) event => (writeStep call dir name value tree phase event).map (·, [])⟩

/-- `get`, which may be called in any of these states. -/
def getBytes (tree : FileTree Name Bytes) (path : List Name) : Except StorageError (Option Bytes) :=
  match tree.resolve path with
  | .ok (.file bytes) => .ok (some bytes)
  | .ok .dir => .error (.fromIo .isADirectory)
  | .error .notFound => .ok none
  | .error errno => .error (.fromIo errno)

end Coral

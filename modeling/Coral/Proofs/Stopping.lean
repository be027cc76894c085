import Coral.Library.Machine
import Coral.Node.Evidence
import Coral.Proofs.StorageLaws

/-! A process that stops between two calls of the store. What it has written by then is in
the store, and the calls it does not come to change nothing. -/

namespace Coral.Proofs
open Coral.Library LawfulStorage

/-- The store as the process sees it: the writes it lives to see, and the keys it has
written, the last one first. -/
structure Stopping (σ : Type) where
  storage : σ
  writes : Nat
  journal : List String

namespace Stopping

variable {σ : Type} [AgentStorage σ]

/-- What a call that is never made answers. -/
def stopped : StorageError := .other "the process has stopped"

def put (store : Stopping σ) (key : String) (value : Content) : Except StorageError (Stopping σ) :=
  if store.writes = 0 then .error stopped
  else (AgentStorage.put store.storage key value).map fun after => ⟨after, store.writes - 1, key :: store.journal⟩

def putIfAbsent (store : Stopping σ) (key : String) (value : Content) :
    Except StorageError (PutOutcome × Stopping σ) :=
  if store.writes = 0 then .error stopped
  else (AgentStorage.putIfAbsent store.storage key value).map fun (outcome, after) =>
    (outcome, ⟨after, store.writes - 1, if outcome = .created then key :: store.journal else store.journal⟩)

def delete (store : Stopping σ) (key : String) : Except StorageError (Stopping σ) :=
  if store.writes = 0 then .error stopped
  else (AgentStorage.delete store.storage key).map fun after => ⟨after, store.writes - 1, store.journal⟩

instance : AgentStorage (Stopping σ) where
  put := put
  putIfAbsent := putIfAbsent
  get store key := AgentStorage.get store.storage key
  delete := delete
  list store start after limit := AgentStorage.list store.storage start after limit

theorem put_spec {store after : Stopping σ} {key : String} {value : Content}
    (written : AgentStorage.put store key value = .ok after) :
    AgentStorage.put store.storage key value = .ok after.storage ∧ after.journal = key :: store.journal := by
  change store.put key value = _ at written
  unfold put at written
  split at written
  · cases written
  · cases inner : AgentStorage.put store.storage key value with
    | error source =>
      rw [inner] at written
      cases written
    | ok storage =>
      rw [inner] at written
      cases written
      exact ⟨rfl, rfl⟩

theorem putIfAbsent_spec {store after : Stopping σ} {key : String} {value : Content} {outcome : PutOutcome}
    (written : AgentStorage.putIfAbsent store key value = .ok (outcome, after)) :
    AgentStorage.putIfAbsent store.storage key value = .ok (outcome, after.storage) := by
  change store.putIfAbsent key value = _ at written
  unfold putIfAbsent at written
  split at written
  · cases written
  · cases inner : AgentStorage.putIfAbsent store.storage key value with
    | error source =>
      rw [inner] at written
      cases written
    | ok result =>
      rw [inner] at written
      cases written
      rfl

theorem delete_spec {store after : Stopping σ} {key : String} (deleted : AgentStorage.delete store key = .ok after) :
    AgentStorage.delete store.storage key = .ok after.storage := by
  change store.delete key = _ at deleted
  unfold delete at deleted
  split at deleted
  · cases deleted
  · cases inner : AgentStorage.delete store.storage key with
    | error source =>
      rw [inner] at deleted
      cases deleted
    | ok storage =>
      rw [inner] at deleted
      cases deleted
      rfl

instance [LawfulStorage σ] : LawfulStorage (Stopping σ) where
  Place := Place σ
  decEq := inferInstance
  place := place
  path_of_place := path_of_place
  view store := view store.storage
  get_ok store := get_ok store.storage
  put_ok store after key value written := put_ok store.storage after.storage key value (put_spec written).1
  putIfAbsent_created store after key value written :=
    putIfAbsent_created store.storage after.storage key value (putIfAbsent_spec written)
  putIfAbsent_existed store after key value written :=
    putIfAbsent_existed store.storage after.storage key value (putIfAbsent_spec written)
  vacant store := vacant store.storage
  put_vacant store after key value written := put_vacant store.storage after.storage key value (put_spec written).1
  putIfAbsent_vacant store after key value outcome written :=
    putIfAbsent_vacant store.storage after.storage key value outcome (putIfAbsent_spec written)
  get_put store after key value written := get_put store.storage after.storage key value (put_spec written).1
  list_put store after key value written := list_put store.storage after.storage key value (put_spec written).1
  delete_ok store after key deleted := delete_ok store.storage after.storage key (delete_spec deleted)
  list_ok store := list_ok store.storage
  list_nodup store := list_nodup store.storage
  shows := shows σ
  list_complete store := list_complete store.storage

end Stopping

inductive FsCall where
  | applyOps (ops : List FsOp)
  | recordEvidence (record : EvidenceRecord) (slugSeed : String)
  | reopen (mandate : Mandate)

structure Attempt where
  call : FsCall
  clock : Clock
  writes : Nat

/-- The store as a process finds it that will live to see so many writes. -/
def Attempt.alive {σ : Type} (attempt : Attempt) (store : Stopping σ) : Stopping σ := { store with writes := attempt.writes }

/-- The store that `new_with_storage` finds, and the one that it leaves. -/
structure Opening (σ : Type) where
  before : Stopping σ
  after : Stopping σ

/-- A call that ended or that the process stopped in. No fault of the store comes into it. -/
def outlived {σ α : Type} : Except FsError α × Stopping σ → Option (Stopping σ)
  | (.ok _, after) => some after
  | (.error error, after) => if error.isModelFault ∨ after.writes = 0 then some after else none

def attempts {σ : Type} [AgentStorage σ] (fs : AgentFs) : Machine (Stopping σ) Attempt (Opening σ) :=
  ⟨fun store attempt =>
    match attempt.call with
    | .applyOps ops => (outlived (fs.applyOps attempt.clock ops (attempt.alive store))).map (·, [])
    | .recordEvidence record slugSeed =>
      (outlived (fs.recordEvidence (attempt.clock 0) record slugSeed (attempt.alive store))).map (·, [])
    | .reopen mandate =>
      match AgentFs.newWithStorage fs.storagePrefix mandate attempt.clock (attempt.alive store) with
      | .ok (_, after) => some (after, [⟨attempt.alive store, after⟩])
      | .error _ => none⟩

end Coral.Proofs

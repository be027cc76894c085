import Coral.Proofs.NotePlan
import Coral.Proofs.StorageLaws

/-! What a call of `AgentFs` changes in a lawful store: the note it is given, and the tail. -/

namespace Coral.Proofs
open Coral.Library LawfulStorage

variable {σ : Type} [AgentStorage σ] [LawfulStorage σ] {fs : AgentFs} {storage after : σ}

def viewAt (storage : σ) (key : String) : Option Content := view storage (place key)

/-- What a reader takes the tail for. -/
def tailAt (storage : σ) (key : String) : TailObject := ((viewAt storage key).bind Content.asTail).getD {}

/-- The store is as before, but for the value at the key. -/
def Sets (storage after : σ) (key : String) (value : Option Content) : Prop :=
  ∀ other, view after other = if other = place key then value else view storage other

theorem Sets.at_key {key : String} {value : Option Content} (sets : Sets storage after key value) :
    viewAt after key = value := by
  unfold viewAt
  rw [sets, if_pos rfl]

theorem Sets.apart {key other : String} {value : Option Content} (sets : Sets storage after key value)
    (apart : keyPath other ≠ keyPath key) : viewAt after other = viewAt storage other := by
  unfold viewAt
  rw [sets, if_neg fun same => apart (path_of_place _ _ same)]

theorem get_spec {key : String} {found : Option Content} (got : AgentFs.get storage key = .ok found) :
    found = viewAt storage key := by
  unfold AgentFs.get AgentFs.stored at got
  split at got
  · rename_i value read
    cases got
    exact get_ok storage key _ read
  · cases got

theorem put_spec {key : String} {value : Content} (written : AgentFs.put storage key value = .ok after) :
    AgentFs.get after key = .ok (some value) ∧ Sets storage after key (some value) := by
  unfold AgentFs.put AgentFs.stored at written
  split at written
  · rename_i result wrote
    cases written
    obtain ⟨read, views⟩ := put_ok storage after key value wrote
    refine ⟨?_, views⟩
    unfold AgentFs.get AgentFs.stored
    rw [read]
  · cases written

theorem delete_spec {key : String} (deleted : AgentFs.stored key (AgentStorage.delete storage key) = .ok after) :
    Sets storage after key none ∧
      (viewAt storage key = none → ∀ start, AgentFs.listAll after start = AgentFs.listAll storage start) := by
  unfold AgentFs.stored at deleted
  split at deleted
  · rename_i result removed
    cases deleted
    obtain ⟨views, lists⟩ := delete_ok storage after key removed
    refine ⟨views, ?_⟩
    intro absent start
    unfold AgentFs.listAll
    rw [lists absent]
  · cases deleted

/-- The entries of a tail once the file has been written. -/
def appended (tail : TailObject) (filename : String) (now : DateTime) : TailObject :=
  ⟨(⟨filename, now⟩ :: tail.entries.filter (·.filename != filename)).take TAIL_K⟩

def removed (tail : TailObject) (filename : String) : TailObject := ⟨tail.entries.filter (·.filename != filename)⟩

theorem appendToTail_writes {suffix filename : String} {now : DateTime}
    (followed : fs.appendToTail suffix filename now storage = .ok after) :
    AgentFs.put storage (fs.key suffix) (.tail (appended (tailAt storage (fs.key suffix)) filename now)) = .ok after := by
  unfold AgentFs.appendToTail at followed
  cases got : AgentFs.get storage (fs.key suffix) with
  | error error => rw [got] at followed; cases followed
  | ok found =>
    rw [got] at followed
    unfold tailAt
    rw [← get_spec got]
    exact followed

theorem appendToTail_ok {suffix filename : String} {now : DateTime}
    (followed : fs.appendToTail suffix filename now storage = .ok after) :
    AgentFs.get after (fs.key suffix) = .ok (viewAt after (fs.key suffix)) ∧
      Sets storage after (fs.key suffix) (some (.tail (appended (tailAt storage (fs.key suffix)) filename now))) := by
  obtain ⟨read, sets⟩ := put_spec (appendToTail_writes followed)
  exact ⟨by rw [read, sets.at_key], sets⟩

theorem removed_eq_iff {tail : TailObject} {filename : String} :
    removed tail filename = tail ↔ filename ∉ tail.entries.map (·.filename) := by
  unfold removed
  rw [TailObject.mk.injEq, List.filter_eq_self, List.mem_map, not_exists]
  constructor
  · rintro kept entry ⟨member, same⟩
    exact absurd same (bne_iff_ne.mp (kept entry member))
  · exact fun absent entry member => bne_iff_ne.mpr fun same => absent entry ⟨member, same⟩

theorem length_removed_iff {tail : TailObject} {filename : String} :
    (tail.entries.filter (·.filename != filename)).length = tail.entries.length ↔
      filename ∉ tail.entries.map (·.filename) := by
  rw [← removed_eq_iff]
  constructor
  · intro kept
    unfold removed
    rw [List.filter_sublist.eq_of_length kept]
  · exact fun same => congrArg (·.entries.length) same

/-- The tail is written only if it has the name. -/
theorem removeFromTail_writes {suffix filename : String} (followed : fs.removeFromTail suffix filename storage = .ok after) :
    AgentFs.get storage (fs.key suffix) = .ok (viewAt storage (fs.key suffix)) ∧
      (filename ∉ (tailAt storage (fs.key suffix)).entries.map (·.filename) ∧ after = storage ∨
        filename ∈ (tailAt storage (fs.key suffix)).entries.map (·.filename) ∧
          AgentFs.put storage (fs.key suffix) (.tail (removed (tailAt storage (fs.key suffix)) filename)) = .ok after) := by
  unfold AgentFs.removeFromTail at followed
  cases got : AgentFs.get storage (fs.key suffix) with
  | error error => rw [got] at followed; cases followed
  | ok found =>
    have same := get_spec got
    refine ⟨by rw [same], ?_⟩
    rw [got] at followed
    cases found with
    | none =>
      cases followed
      refine .inl ⟨?_, rfl⟩
      unfold tailAt
      rw [← same]
      exact List.not_mem_nil
    | some content =>
      have tail : content.asTail.getD {} = tailAt storage (fs.key suffix) := by
        unfold tailAt
        rw [← same]
        rfl
      simp only [bind, Except.bind, tail] at followed
      split at followed
      · rename_i kept
        cases followed
        exact .inl ⟨length_removed_iff.mp kept, rfl⟩
      · rename_i fewer
        exact .inr ⟨not_not.mp (mt length_removed_iff.mpr fewer), followed⟩

theorem removeFromTail_ok {suffix filename : String}
    (followed : fs.removeFromTail suffix filename storage = .ok after) :
    AgentFs.get after (fs.key suffix) = .ok (viewAt after (fs.key suffix)) ∧
      (after = storage ∧ removed (tailAt storage (fs.key suffix)) filename = tailAt storage (fs.key suffix) ∨
        Sets storage after (fs.key suffix) (some (.tail (removed (tailAt storage (fs.key suffix)) filename)))) := by
  obtain ⟨read, ⟨absent, rfl⟩ | ⟨-, written⟩⟩ := removeFromTail_writes followed
  · exact ⟨read, .inl ⟨rfl, removed_eq_iff.mpr absent⟩⟩
  · obtain ⟨read, sets⟩ := put_spec written
    exact ⟨by rw [read, sets.at_key], .inr sets⟩

omit [LawfulStorage σ] in
theorem executeOp_ok {now : DateTime} {path : List Name} {op : FsOp}
    (executed : fs.executeOp now (noteKey fs path) op storage = (.ok (), after)) :
    match op with
    | .writeFile _ content => ∃ middle, AgentFs.put storage (noteKey fs path) (.text content) = .ok middle ∧
        fs.appendToTail NOTES_TAIL_SUFFIX (joinPath path) now middle = .ok after
    | .deleteFile _ => ∃ middle, AgentFs.stored (noteKey fs path) (AgentStorage.delete storage (noteKey fs path)) =
        .ok middle ∧ fs.removeFromTail NOTES_TAIL_SUFFIX (joinPath path) middle = .ok after := by
  have settled : ∀ {middle : σ} {result : Except FsError σ}, AgentFs.settle middle result = (.ok (), after) →
      result = .ok after := by
    intro middle result settled
    cases result with
    | error error => cases settled
    | ok value => cases settled; rfl
  unfold AgentFs.executeOp at executed
  rw [stripStart_noteKey] at executed
  cases op with
  | writeFile raw content =>
    simp only at executed ⊢
    split at executed
    · cases executed
    · rename_i middle written
      exact ⟨middle, written, settled executed⟩
  | deleteFile raw =>
    simp only at executed ⊢
    split at executed
    · cases executed
    · rename_i middle deleted
      exact ⟨middle, deleted, settled executed⟩

omit [LawfulStorage σ] in
/-- What each operation on a note keeps, an accepted batch keeps. -/
theorem applyOps_induction {clock : Clock} {ops : List FsOp} (holds : List FsOp → σ → Prop)
    (step : ∀ done op path now (before next : σ), op ∈ ops → notePath op.path = some path → holds done before →
      fs.executeOp now (noteKey fs path) op before = (.ok (), next) → holds (done ++ [op]) next)
    (start : holds [] storage) (applied : fs.applyOps clock ops storage = (.ok (), after)) :
    holds ops after ∧ ∀ op ∈ ops, (notePath op.path).isSome = true := by
  unfold AgentFs.applyOps at applied
  split at applied
  · rename_i planned plan
    have related := planOps_ok plan
    have named : ∀ op ∈ ops, (notePath op.path).isSome = true := by
      intro op member
      obtain ⟨_, -, path, named, -⟩ := forall₂_mem_left related member
      rw [named]
      rfl
    refine ⟨?_, named⟩
    clear plan named
    have rest : ∀ (done todo : List FsOp) (planned : List (String × FsOp)) (reading : Nat) (storage : σ),
        done ++ todo = ops → List.Forall₂ (Planned fs) todo planned → holds done storage →
        fs.executeOps clock reading planned storage = (.ok (), after) → holds ops after := by
      intro done todo planned reading storage whole related held applied
      induction related generalizing done reading storage with
      | nil =>
        cases applied
        rw [← whole, List.append_nil]
        exact held
      | @cons op step todo planned related rest ih =>
        obtain ⟨path, named, rfl⟩ := related
        unfold AgentFs.executeOps at applied
        split at applied
        · rename_i next executed
          refine ih (done ++ [op]) (reading + 1) next (by simp [whole]) ?_ applied
          exact step done op path _ storage next (by rw [← whole]; simp) named held executed
        · cases applied
    exact rest [] ops planned 0 storage rfl related start applied
  · cases applied

/-- Errors that are no mistake of the model. -/
private abbrev Blameless {α : Type} (result : Except FsError α) : Prop := Tolerates (fun error => !error.isModelFault) result

private theorem stored_faulty {α : Type} (key : String) (result : Except StorageError α) :
    Blameless (AgentFs.stored key result) := by
  cases result with
  | ok value => exact tolerates_ok value
  | error source => exact tolerates_error.mpr rfl

omit [AgentStorage σ] [LawfulStorage σ] in
private theorem settle_fault {storage after : σ} {result : Except FsError σ} (faulty : Blameless result) {error : FsError}
    (failed : AgentFs.settle storage result = (.error error, after)) : error.isModelFault = false := by
  cases result with
  | ok value => cases failed
  | error other =>
    cases failed
    simpa using faulty error rfl

omit [LawfulStorage σ] in
theorem executeOps_fault {clock : Clock} {reading : Nat} {planned : List (String × FsOp)} {error : FsError}
    (failed : fs.executeOps clock reading planned storage = (.error error, after)) : error.isModelFault = false := by
  have appendFaulty : ∀ filename now (middle : σ), Blameless (fs.appendToTail NOTES_TAIL_SUFFIX filename now middle) := by
    intro filename now middle
    exact tolerates_bind.mpr ⟨stored_faulty _ _, fun _ _ => stored_faulty _ _⟩
  have removeFaulty : ∀ filename (middle : σ), Blameless (fs.removeFromTail NOTES_TAIL_SUFFIX filename middle) := by
    intro filename middle
    refine tolerates_bind.mpr ⟨stored_faulty _ _, ?_⟩
    intro found _
    cases found with
    | none => exact tolerates_pure _
    | some content =>
      simp only
      split
      · exact tolerates_pure _
      · exact stored_faulty _ _
  induction planned generalizing reading storage with
  | nil => cases failed
  | cons step planned ih =>
    obtain ⟨key, op⟩ := step
    unfold AgentFs.executeOps at failed
    split at failed
    · exact ih failed
    · rename_i other middle executed
      cases failed
      unfold AgentFs.executeOp at executed
      cases op with
      | writeFile path content =>
        simp only at executed
        split at executed
        · rename_i source wrote
          cases executed
          simpa using stored_faulty _ _ error wrote
        · split at executed
          · exact settle_fault (appendFaulty _ _ _) executed
          · cases executed
      | deleteFile path =>
        simp only at executed
        split at executed
        · rename_i source deleted
          cases executed
          simpa using stored_faulty _ _ error deleted
        · split at executed
          · exact settle_fault (removeFaulty _ _) executed
          · cases executed

end Coral.Proofs

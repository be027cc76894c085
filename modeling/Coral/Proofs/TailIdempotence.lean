import Coral.Proofs.NotesListing

/-! Reconciling a tail twice. The second run reads the tail that the first one left, and
either takes it as it is or builds the same one from the same names. -/

namespace Coral.Proofs
open Coral.Library LawfulStorage

theorem ListPage.length_of (keys : List String) (limit : Nat) :
    (ListPage.of keys none limit).keys.length = min limit keys.length := by
  unfold ListPage.of
  rw [List.length_take, List.length_insertionSort]

/-- A page that has room for all keys has them all. -/
theorem ListPage.mem_of_fits {keys : List String} {limit : Nat} (fits : keys.length ≤ limit) {key : String} :
    key ∈ (ListPage.of keys none limit).keys ↔ key ∈ keys := by
  unfold ListPage.of
  dsimp only
  rw [List.take_of_length_le (by rwa [List.length_insertionSort]), List.mem_insertionSort]

theorem ListPage.mem_of_added {first second : List String} {limit : Nat} {new : String} (distinct : second.Nodup)
    (short : (ListPage.of first none limit).keys.length + 1 < limit)
    (same : ∀ key, key ≠ new → (key ∈ second ↔ key ∈ first)) {key : String} (other : key ≠ new) :
    key ∈ (ListPage.of second none limit).keys ↔ key ∈ (ListPage.of first none limit).keys := by
  have fewer : second.length ≤ first.length + 1 := by
    apply (List.subperm_of_subset distinct (_ : second ⊆ new :: first)).length_le
    intro text member
    by_cases here : text = new
    · rw [here]
      exact List.mem_cons_self
    · exact List.mem_cons_of_mem _ ((same text here).mp member)
  rw [ListPage.length_of] at short
  rw [ListPage.mem_of_fits (by omega), ListPage.mem_of_fits (by omega)]
  exact same key other

/-- The files below a directory, and what a listing of it makes of a write there. -/
class FiledStorage (σ : Type) [AgentStorage σ] [LawfulStorage σ] where
  /-- The names of the files below the directory, as paths from there. -/
  under : σ → String → List String
  list_under : ∀ (storage : σ) base limit page, AgentStorage.list storage (base ++ "/") none limit = .ok page →
    ∀ key ∈ page.keys, ∃ name ∈ under storage (base ++ "/"), key = base ++ "/" ++ name
  put_of_get : ∀ (storage : σ) key found value, AgentStorage.get storage key = .ok found →
    ∃ after, AgentStorage.put storage key value = .ok after
  list_after : ∀ (storage after : σ) base name value limit page,
    AgentStorage.put storage (base ++ "/" ++ Name.text name) value = .ok after →
      AgentStorage.list storage (base ++ "/") none limit = .ok page → page.keys.length + 1 < limit →
        ∃ page', AgentStorage.list after (base ++ "/") none limit = .ok page' ∧
          ∀ other, (place other : Place σ) ≠ place (base ++ "/" ++ name.text) → (other ∈ page'.keys ↔ other ∈ page.keys)

instance : FiledStorage MemoryStorage where
  under storage start := storage.inner.keys.filterMap fun key => stripStart key start
  list_under storage base limit page listed key member := by
    cases listed
    obtain ⟨stored, matching⟩ := List.mem_filter.mp (ListPage.mem_keys_of member)
    obtain ⟨rest, stripped⟩ : ∃ rest, stripStart key (base ++ "/") = some rest := ⟨_, if_pos matching⟩
    exact ⟨rest, List.mem_filterMap.mpr ⟨key, stored, stripped⟩, stripStart_eq stripped⟩
  put_of_get _ _ _ _ _ := ⟨_, rfl⟩
  list_after storage after base name value limit page written listed short := by
    cases written
    cases listed
    refine ⟨_, rfl, ?_⟩
    have spelled : ∀ key, key ≠ base ++ "/" ++ name.text →
        (key ∈ (storage.inner.insert (base ++ "/" ++ name.text) value).keys.filter (startsWithText · (base ++ "/")) ↔
          key ∈ storage.inner.keys.filter (startsWithText · (base ++ "/"))) := by
      intro key elsewhere
      rw [List.mem_filter, List.mem_filter]
      apply and_congr_left
      intro _
      rw [← AList.mem_keys, ← AList.mem_keys, ← AList.lookup_isSome, ← AList.lookup_isSome, lookup_insert,
        if_neg elsewhere]
    intro other apart
    exact ListPage.mem_of_added ((storage.inner.insert _ value).keys_nodup.filter _) short spelled apart

private theorem keyPath_base (base : String) : keyPath (base ++ "/") = keyPath base := by
  rw [← @String.append_empty (base ++ "/"), keyPath_append, show keyPath "" = [] by decide, List.append_nil]

instance : FiledStorage LocalStorage where
  under storage start :=
    (storage.tree.files.filter fun path => decide (keyPath start <+: path ∧ path ≠ keyPath start)).map fun path =>
      joinPath (path.drop (keyPath start).length)
  list_under storage base limit page listed key member := by
    obtain ⟨starts, -⟩ := list_ok storage _ none limit page listed key member
    have apart : storage.tree.shape (LocalStorage.scanRoot (base ++ "/")) ≠ some .file := by
      intro file
      change storage.list (base ++ "/") none limit = _ at listed
      rw [list_of_file file] at listed
      cases listed
    change storage.list (base ++ "/") none limit = _ at listed
    rw [list_of_keys apart] at listed
    cases listed
    obtain ⟨path, named, file, -, -⟩ := mem_keysFrom.mp (ListPage.mem_keys_of member)
    obtain ⟨rest, stripped⟩ : ∃ rest, stripStart key (base ++ "/") = some rest := ⟨_, if_pos starts⟩
    have whole := stripStart_eq stripped
    have plain := plain_rest (whole.symm.trans named)
    have split : path = keyPath base ++ keyPath rest := by
      rw [← keyPath_joinPath path, ← named, whole, keyPath_append]
    refine ⟨rest, List.mem_map.mpr ⟨path, List.mem_filter.mpr ⟨FileTree.mem_files.mpr file, ?_⟩, ?_⟩, whole⟩
    · rw [decide_eq_true_eq, keyPath_base]
      refine ⟨split ▸ List.prefix_append _ _, ?_⟩
      intro same
      rw [scanRoot_dir, ← same] at apart
      exact apart file
    · rw [keyPath_base, split, List.drop_left]
      exact plain.symm
  put_of_get storage key found value got := by
    cases clear : storage.tree.shape.clear (keyPath key) with
    | true =>
      obtain ⟨after, written, -⟩ := put_clear clear value
      exact ⟨after, raw_ok written⟩
    | false =>
      obtain ⟨source, failed⟩ := get_unclear clear
      unfold AgentFs.get at failed
      rw [got] at failed
      cases failed
  list_after storage after base name value limit page written listed short := by
    have place_eq : keyPath (base ++ "/" ++ name.text) = keyPath base ++ [name] := by
      rw [keyPath_append, show keyPath name.text = [name] from keyPath_joinPath [name]]
    change storage.put _ value = _ at written
    unfold LocalStorage.put at written
    split at written
    · rename_i tree wrote
      cases written
      have root : LocalStorage.scanRoot (base ++ "/") ≠ keyPath (base ++ "/" ++ name.text) := by
        rw [scanRoot_dir, place_eq]
        simp
      have apart : storage.tree.shape (LocalStorage.scanRoot (base ++ "/")) ≠ some .file := by
        intro file
        change storage.list (base ++ "/") none limit = _ at listed
        rw [list_of_file file] at listed
        cases listed
      change storage.list (base ++ "/") none limit = _ at listed
      rw [list_of_keys apart] at listed
      cases listed
      refine ⟨_, list_of_keys (fun file => apart ((shape_file_write wrote root).mp file)) none limit, ?_⟩
      intro other elsewhere
      have spelled : ∀ key, key ≠ joinPath (keyPath (base ++ "/" ++ name.text)) →
          (key ∈ keysFrom ⟨tree⟩ (base ++ "/") ↔ key ∈ keysFrom storage (base ++ "/")) := by
        intro key distinct
        rw [mem_keysFrom, mem_keysFrom]
        apply exists_congr
        intro path
        apply and_congr_right
        rintro rfl
        rw [shape_file_write wrote fun same => distinct (congrArg joinPath same)]
      apply ListPage.mem_of_added (nodup_keysFrom _ _) short spelled
      rintro rfl
      exact elsewhere (keyPath_joinPath _)
    · cases written

namespace Tailed

variable (dir : Tailed) (fs : AgentFs)

/-- One of the two directories that have a tail. -/
def Kept : Prop := dir = evidenceDir ∨ dir = notesDir

def rebuilt (now : DateTime) (names : List String) (tail : TailObject) : TailObject :=
  ⟨(greatest names).map fun filename =>
    ⟨filename, ((tail.entries.reverse.find? (·.filename == filename)).map (·.addedAt)).getD now⟩⟩

variable {σ : Type} [AgentStorage σ] [LawfulStorage σ]

/-- One run, and the store as it leaves it. -/
def reconcile (now : DateTime) (storage : σ) : Except FsError Unit × σ :=
  AgentFs.settle storage (fs.reconcileTail dir.suffix dir.indexed dir.isRecord now storage)

/-- The record files below the directory. -/
def records [FiledStorage σ] (storage : σ) : List String :=
  (FiledStorage.under storage (fs.key dir.indexed)).filter dir.isRecord

/-- Running twice is running once, at whatever times, and no other file is touched. As long
as there are few enough records, all of them are in the tail. -/
structure Settles [FiledStorage σ] (storage : σ) : Prop where
  again : ∀ now later, (dir.reconcile fs later (dir.reconcile fs now storage).2).1 = (dir.reconcile fs now storage).1 ∧
    view (dir.reconcile fs later (dir.reconcile fs now storage).2).2 = view (dir.reconcile fs now storage).2
  apart : ∀ now other, other ≠ place (fs.key dir.suffix) → view (dir.reconcile fs now storage).2 other = view storage other
  complete : (dir.records fs storage).length ≤ TAIL_K → ∀ now, ∀ name ∈ dir.records fs storage,
    name ∈ dir.tracked fs (dir.reconcile fs now storage).2

/-- The tail has every record already, or it can be read and the listing shows them all. -/
def Covered [FiledStorage σ] (storage : σ) : Prop :=
  (∀ name ∈ dir.records fs storage, name ∈ dir.tracked fs storage) ∨
    (∃ found, AgentFs.get storage (fs.key dir.suffix) = .ok found) ∧
      ∃ keys, AgentFs.listAll storage (fs.key dir.indexed) = .ok keys ∧
        ∀ name ∈ dir.records fs storage, name ∈ dir.names fs keys

variable {dir fs}

theorem Kept.shape (kept : dir.Kept) : (∃ base, dir.indexed = base ++ "/") ∧ dir.suffix = dir.indexed ++ tailName.text ∧
    dir.isRecord tailName.text = false := by
  rcases kept with rfl | rfl
  · exact ⟨⟨"evidence", by decide⟩, by decide, by decide⟩
  · exact ⟨⟨"notes", by decide⟩, by decide, by decide⟩

theorem mem_names {keys : List String} {name : String} :
    name ∈ dir.names fs keys ↔ fs.key dir.indexed ++ name ∈ keys ∧ dir.isRecord name = true := by
  unfold names
  rw [List.mem_filter, List.mem_filterMap]
  apply and_congr_left
  intro _
  constructor
  · intro ⟨key, member, stripped⟩
    rw [← stripStart_eq stripped]
    exact member
  · exact fun member => ⟨_, member, stripStart_append _ _⟩

section Rebuilt

private theorem find_entry {names : List String} (stamp : String → DateTime) (distinct : names.Nodup) {name : String}
    (member : name ∈ names) : (names.map fun other => (⟨other, stamp other⟩ : TailEntry)).find? (·.filename == name) =
      some ⟨name, stamp name⟩ := by
  induction names with
  | nil => cases member
  | cons first rest ih =>
    rw [List.map_cons, List.find?_cons]
    by_cases here : first = name
    · simp [here]
    · rw [show (first == name) = false by simpa using here]
      exact ih distinct.of_cons ((List.mem_cons.mp member).resolve_left fun same => here same.symm)

theorem nodup_greatest {names : List String} (distinct : names.Nodup) : (greatest names).Nodup := by
  unfold greatest
  rw [List.nodup_reverse]
  exact ((List.perm_insertionSort _ names).nodup_iff.mpr distinct).sublist (List.drop_sublist _ _)

/-- The times are kept, so that the later one shows nowhere. -/
theorem rebuilt_again (now later : DateTime) {names : List String} (distinct : names.Nodup) (tail : TailObject) :
    rebuilt later names (rebuilt now names tail) = rebuilt now names tail := by
  unfold rebuilt
  congr 1
  apply List.map_congr_left
  intro name member
  rw [← List.map_reverse, find_entry _ (List.nodup_reverse.mpr (nodup_greatest distinct)) (List.mem_reverse.mpr member)]
  rfl

theorem mem_greatest_of_few {names : List String} (few : names.length ≤ TAIL_K) {name : String} :
    name ∈ greatest names ↔ name ∈ names := by
  unfold greatest
  dsimp only
  rw [List.length_insertionSort, Nat.sub_eq_zero_of_le few, List.drop_zero, List.mem_reverse, List.mem_insertionSort]

theorem names_rebuilt (now : DateTime) (names : List String) (tail : TailObject) :
    (rebuilt now names tail).entries.map (·.filename) = greatest names := by
  unfold rebuilt
  rw [List.map_map]
  exact List.map_id _

end Rebuilt

variable {storage after : σ}

private theorem covers_iff {keys : List String} :
    (((dir.names fs keys).insertionSort fun first second => first.toList ≤ second.toList).all
      fun filename => (tailAt storage (fs.key dir.suffix)).entries.any (·.filename == filename)) = true ↔
        ∀ name ∈ dir.names fs keys, name ∈ dir.tracked fs storage := by
  simp [tracked, List.all_eq_true, List.any_eq_true]

/-- A run that gets to read and finds a record missing from the tail writes it anew. -/
theorem reconcileTail_stale (now : DateTime) {keys : List String} {found : Option Content}
    (listed : AgentFs.listAll storage (fs.key dir.indexed) = .ok keys)
    (got : AgentFs.get storage (fs.key dir.suffix) = .ok found) (stale : ¬ dir.Current fs storage keys) :
    fs.reconcileTail dir.suffix dir.indexed dir.isRecord now storage =
      AgentFs.put storage (fs.key dir.suffix)
        (.tail (rebuilt now (dir.names fs keys) (tailAt storage (fs.key dir.suffix)))) := by
  have tail : (found.bind Content.asTail).getD {} = tailAt storage (fs.key dir.suffix) := by
    rw [get_spec got]
    rfl
  unfold AgentFs.reconcileTail
  rw [listed]
  simp only [bind, Except.bind]
  change (if (dir.names fs keys).isEmpty = true then _ else _) = _
  rw [if_neg (by simpa using fun empty => stale (.inl empty)), got]
  simp only
  rw [tail, if_neg]
  · rfl
  · intro all
    exact stale (.inr (covers_iff.mp all))

theorem reconcileTail_current (now : DateTime) {keys : List String} {found : Option Content}
    (listed : AgentFs.listAll storage (fs.key dir.indexed) = .ok keys)
    (got : AgentFs.get storage (fs.key dir.suffix) = .ok found) (current : dir.Current fs storage keys) :
    fs.reconcileTail dir.suffix dir.indexed dir.isRecord now storage = .ok storage := by
  have tail : (found.bind Content.asTail).getD {} = tailAt storage (fs.key dir.suffix) := by
    rw [get_spec got]
    rfl
  unfold AgentFs.reconcileTail
  rw [listed]
  simp only [bind, Except.bind]
  change (if (dir.names fs keys).isEmpty = true then _ else _) = _
  by_cases empty : dir.names fs keys = []
  · rw [if_pos (by simp [empty])]
    rfl
  · rw [if_neg (by simpa using empty), got]
    simp only
    rw [tail]
    exact if_pos (covers_iff.mpr (current.resolve_left empty))

omit [LawfulStorage σ] in
/-- Where something cannot be read, it is so at any time. -/
theorem reconcileTail_unread
    (unread : ∀ keys, AgentFs.listAll storage (fs.key dir.indexed) = .ok keys →
      ¬ ∃ found, AgentFs.get storage (fs.key dir.suffix) = .ok found) :
    ∃ outcome, ∀ now, dir.reconcile fs now storage = (outcome, storage) := by
  unfold reconcile AgentFs.reconcileTail
  cases listed : AgentFs.listAll storage (fs.key dir.indexed) with
  | error error => exact ⟨.error error, fun _ => rfl⟩
  | ok keys =>
    simp only [bind, Except.bind]
    cases got : AgentFs.get storage (fs.key dir.suffix) with
    | ok found => exact (unread keys listed ⟨found, got⟩).elim
    | error error =>
      by_cases empty : (dir.names fs keys).isEmpty = true
      · refine ⟨.ok (), fun now => ?_⟩
        change AgentFs.settle storage (if (dir.names fs keys).isEmpty = true then _ else _) = _
        rw [if_pos empty]
        rfl
      · refine ⟨.error error, fun now => ?_⟩
        change AgentFs.settle storage (if (dir.names fs keys).isEmpty = true then _ else _) = _
        rw [if_neg empty]
        rfl

/-- Either the store is left alone, whenever that is, or the tail is written anew. -/
theorem reconcile_cases [FiledStorage σ] (dir : Tailed) (fs : AgentFs) (storage : σ) :
    ((∃ outcome, ∀ now, dir.reconcile fs now storage = (outcome, storage)) ∧
        ∀ keys, AgentFs.listAll storage (fs.key dir.indexed) = .ok keys →
          (∃ found, AgentFs.get storage (fs.key dir.suffix) = .ok found) → dir.Current fs storage keys) ∨
      ∃ keys, AgentFs.listAll storage (fs.key dir.indexed) = .ok keys ∧
        (∃ found, AgentFs.get storage (fs.key dir.suffix) = .ok found) ∧ ¬ dir.Current fs storage keys ∧
          ∀ now, ∃ after, dir.reconcile fs now storage = (.ok (), after) ∧
            AgentFs.put storage (fs.key dir.suffix)
              (.tail (rebuilt now (dir.names fs keys) (tailAt storage (fs.key dir.suffix)))) = .ok after := by
  by_cases unread : ∀ keys, AgentFs.listAll storage (fs.key dir.indexed) = .ok keys →
      ¬ ∃ found, AgentFs.get storage (fs.key dir.suffix) = .ok found
  · exact .inl ⟨reconcileTail_unread unread, fun keys listed readable => (unread keys listed readable).elim⟩
  · push Not at unread
    obtain ⟨keys, listed, found, got⟩ := unread
    by_cases current : dir.Current fs storage keys
    · left
      refine ⟨⟨.ok (), fun now => ?_⟩, fun other again _ => ?_⟩
      · unfold reconcile
        rw [reconcileTail_current now listed got current]
        rfl
      · rw [listed] at again
        cases again
        exact current
    · right
      refine ⟨keys, listed, ⟨found, got⟩, current, fun now => ?_⟩
      obtain ⟨after, written⟩ := FiledStorage.put_of_get storage (fs.key dir.suffix) found
        (.tail (rebuilt now (dir.names fs keys) (tailAt storage (fs.key dir.suffix)))) (raw_ok got)
      have put : AgentFs.put storage (fs.key dir.suffix)
          (.tail (rebuilt now (dir.names fs keys) (tailAt storage (fs.key dir.suffix)))) = .ok after := by
        unfold AgentFs.put
        rw [written]
        rfl
      refine ⟨after, ?_, put⟩
      unfold reconcile
      rw [reconcileTail_stale now listed got current, put]
      rfl

section Again

variable [FiledStorage σ]

theorem names_subset (kept : dir.Kept) {keys : List String}
    (listed : AgentFs.listAll storage (fs.key dir.indexed) = .ok keys) : dir.names fs keys ⊆ dir.records fs storage := by
  intro name member
  obtain ⟨here, record⟩ := mem_names.mp member
  obtain ⟨⟨base, below⟩, -, -⟩ := kept.shape
  obtain ⟨page, found, rfl⟩ := listAll_page listed
  have whole : fs.key dir.indexed = fs.key base ++ "/" := by rw [below, key_append]
  rw [whole] at found
  obtain ⟨other, held, same⟩ := FiledStorage.list_under storage _ _ page found _ here
  rw [← whole] at held same
  rw [String.append_right_inj] at same
  exact List.mem_filter.mpr ⟨same ▸ held, record⟩

/-- A tail that is written does not change which records are listed. -/
theorem names_written (kept : dir.Kept) [PlainListing σ] {keys : List String} {value : Content}
    (fits : (FiledStorage.under storage (fs.key dir.indexed)).length + 1 < usizeMax)
    (listed : AgentFs.listAll storage (fs.key dir.indexed) = .ok keys)
    (written : AgentFs.put storage (fs.key dir.suffix) value = .ok after) :
    ∃ keys', AgentFs.listAll after (fs.key dir.indexed) = .ok keys' ∧
      ∀ name, name ∈ dir.names fs keys' ↔ name ∈ dir.names fs keys := by
  obtain ⟨⟨base, below⟩, sidecar, unrecorded⟩ := kept.shape
  have whole : fs.key dir.indexed = fs.key base ++ "/" := by rw [below, key_append]
  have tail : fs.key dir.suffix = fs.key base ++ "/" ++ tailName.text := by rw [sidecar, key_append, whole]
  obtain ⟨page, found, rfl⟩ := listAll_page listed
  have fewer : page.keys.length ≤ (FiledStorage.under storage (fs.key dir.indexed)).length := by
    have within : page.keys ⊆ (FiledStorage.under storage (fs.key dir.indexed)).map (fs.key dir.indexed ++ ·) := by
      intro key member
      rw [whole] at found ⊢
      obtain ⟨name, held, same⟩ := FiledStorage.list_under storage _ _ page found key member
      exact List.mem_map.mpr ⟨name, held, same.symm⟩
    have counted := (List.subperm_of_subset (list_nodup storage _ none usizeMax page found) within).length_le
    rwa [List.length_map] at counted
  have put := raw_ok written
  rw [tail] at put
  rw [whole] at found
  obtain ⟨page', again, same⟩ := FiledStorage.list_after storage after _ tailName value usizeMax page put found (by omega)
  refine ⟨page'.keys, ?_, fun name => ?_⟩
  · unfold AgentFs.listAll
    rw [whole, again]
    rfl
  · rw [mem_names, mem_names]
    apply and_congr_left
    intro record
    -- a record is at another place than the sidecar, or it would have its name
    have apart : ∀ {store : σ} {shown : ListPage}, AgentStorage.list store (fs.key base ++ "/") none usizeMax = .ok shown →
        fs.key dir.indexed ++ name ∈ shown.keys →
          (place (fs.key dir.indexed ++ name) : Place σ) ≠ place (fs.key base ++ "/" ++ tailName.text) := by
      intro store shown list member here
      have spelled := PlainListing.spelled store _ usizeMax shown list _ member [tailName] here
      rw [whole, String.append_right_inj] at spelled
      rw [spelled] at record
      exact Bool.false_ne_true (unrecorded.symm.trans record)
    constructor
    · exact fun member => (same _ (apart again member)).mp member
    · exact fun member => (same _ (apart found member)).mpr member

omit [FiledStorage σ] in
theorem tracked_written {tail : TailObject}
    (written : AgentFs.put storage (fs.key dir.suffix) (.tail tail) = .ok after) :
    tailAt after (fs.key dir.suffix) = tail := by
  unfold tailAt
  rw [(put_spec written).2.at_key]
  rfl

omit [FiledStorage σ] in
theorem rebuilt_congr (now : DateTime) {first second : List String} (same : greatest first = greatest second)
    (tail : TailObject) : rebuilt now first tail = rebuilt now second tail := by
  unfold rebuilt
  rw [same]

theorem greatest_congr {first second : List String} (distinct : first.Nodup) (apart : second.Nodup)
    (same : ∀ name, name ∈ first ↔ name ∈ second) : greatest first = greatest second := by
  unfold greatest
  rw [sorted_congr distinct apart same]

end Again

end Tailed

section Settles

variable {σ : Type} [AgentStorage σ] [LawfulStorage σ] [FiledStorage σ] [PlainListing σ]

/-- The second run leaves the tail alone or writes what is there. -/
theorem reconcile_again {dir : Tailed} (kept : dir.Kept) (fs : AgentFs) {storage : σ}
    (fits : (FiledStorage.under storage (fs.key dir.indexed)).length + 1 < usizeMax) (now later : DateTime) :
    (dir.reconcile fs later (dir.reconcile fs now storage).2).1 = (dir.reconcile fs now storage).1 ∧
      view (dir.reconcile fs later (dir.reconcile fs now storage).2).2 = view (dir.reconcile fs now storage).2 := by
  rcases Tailed.reconcile_cases dir fs storage with ⟨⟨outcome, alone⟩, -⟩ | ⟨keys, listed, -, stale, anew⟩
  · rw [alone now]
    dsimp only
    rw [alone later]
    exact ⟨rfl, rfl⟩
  · obtain ⟨after, once, written⟩ := anew now
    obtain ⟨keys', listed', names⟩ := Tailed.names_written kept fits listed written
    have readable : ∃ found, AgentFs.get after (fs.key dir.suffix) = .ok found := ⟨_, (put_spec written).1⟩
    rw [once]
    dsimp only
    rcases Tailed.reconcile_cases dir fs after with ⟨⟨outcome, alone⟩, fine⟩ | ⟨other, listed'', -, -, again⟩
    · rw [alone later]
      refine ⟨?_, rfl⟩
      obtain ⟨found, got⟩ := readable
      have same := alone later
      unfold Tailed.reconcile at same
      rw [Tailed.reconcileTail_current later listed' got (fine keys' listed' ⟨found, got⟩)] at same
      exact (congrArg Prod.fst same).symm
    · rw [listed'] at listed''
      cases listed''
      obtain ⟨final, twice, written'⟩ := again later
      rw [twice]
      refine ⟨rfl, ?_⟩
      rw [Tailed.tracked_written written] at written'
      have greatest : Tailed.greatest (dir.names fs keys') = Tailed.greatest (dir.names fs keys) :=
        Tailed.greatest_congr (nodup_names (nodup_listAll listed')) (nodup_names (nodup_listAll listed)) names
      have object : Tailed.rebuilt later (dir.names fs keys')
          (Tailed.rebuilt now (dir.names fs keys) (tailAt storage (fs.key dir.suffix))) =
            Tailed.rebuilt now (dir.names fs keys) (tailAt storage (fs.key dir.suffix)) := by
        rw [Tailed.rebuilt_congr later greatest]
        exact Tailed.rebuilt_again now later (nodup_names (nodup_listAll listed)) _
      rw [object] at written'
      funext other
      rw [(put_spec written').2 other, (put_spec written).2 other]
      split <;> rfl

omit [PlainListing σ] in
theorem reconcile_apart {dir : Tailed} (fs : AgentFs) {storage : σ} (now : DateTime) {other : Place σ}
    (apart : other ≠ place (fs.key dir.suffix)) : view (dir.reconcile fs now storage).2 other = view storage other := by
  rcases Tailed.reconcile_cases dir fs storage with ⟨⟨outcome, alone⟩, -⟩ | ⟨keys, listed, -, stale, anew⟩
  · rw [alone now]
  · obtain ⟨after, once, written⟩ := anew now
    rw [once]
    dsimp only
    rw [(put_spec written).2 other, if_neg apart]

omit [PlainListing σ] in
theorem reconcile_complete_iff {dir : Tailed} (kept : dir.Kept) (fs : AgentFs) {storage : σ}
    (few : (dir.records fs storage).length ≤ TAIL_K) (now : DateTime) :
    (∀ name ∈ dir.records fs storage, name ∈ dir.tracked fs (dir.reconcile fs now storage).2) ↔ dir.Covered fs storage := by
  rcases Tailed.reconcile_cases dir fs storage with ⟨⟨outcome, alone⟩, fine⟩ | ⟨keys, listed, readable, stale, anew⟩
  · rw [alone now]
    dsimp only
    constructor
    · exact fun complete => .inl complete
    · intro covered
      rcases covered with complete | ⟨readable, keys, listed, shown⟩
      · exact complete
      · intro name record
        rcases fine keys listed readable with empty | all
        · have member := shown name record
          rw [empty] at member
          cases member
        · exact all name (shown name record)
  · obtain ⟨after, once, written⟩ := anew now
    have distinct : (dir.names fs keys).Nodup := nodup_names (nodup_listAll listed)
    have within := Tailed.names_subset kept listed
    have fewer := (List.subperm_of_subset distinct within).length_le
    have tracked : ∀ name, name ∈ dir.tracked fs after ↔ name ∈ dir.names fs keys := by
      intro name
      unfold Tailed.tracked
      rw [Tailed.tracked_written written, Tailed.names_rebuilt, Tailed.mem_greatest_of_few (fewer.trans few)]
    rw [once]
    dsimp only
    constructor
    · intro complete
      exact .inr ⟨readable, keys, listed, fun name record => (tracked name).mp (complete name record)⟩
    · intro covered name record
      rcases covered with complete | ⟨-, other, again, shown⟩
      · exact (stale (.inr fun other member => complete other (within member))).elim
      · rw [listed] at again
        cases again
        exact (tracked name).mpr (shown name record)

/-- Reconciling settles the tail but for records that a listing passes over. A directory
holds fewer files than a `usize` counts. -/
theorem reconcile_tail_settles_iff {dir : Tailed} (kept : dir.Kept) (fs : AgentFs) {storage : σ}
    (fits : (FiledStorage.under storage (fs.key dir.indexed)).length + 1 < usizeMax) :
    dir.Settles fs storage ↔ ((dir.records fs storage).length ≤ TAIL_K → dir.Covered fs storage) := by
  constructor
  · intro settles few
    exact (reconcile_complete_iff kept fs few ⟨0⟩).mp (settles.complete few ⟨0⟩)
  · intro covered
    exact ⟨reconcile_again kept fs fits, fun now _ apart => reconcile_apart fs now apart,
      fun few now => (reconcile_complete_iff kept fs few now).mpr (covered few)⟩

/-- Two records that the tail, which is text, knows nothing of. -/
private def forgotten : MemoryStorage :=
  ⟨((((∅ : AList fun _ : String => Content).insert "evidence/_tail.json" (.text "")).insert "evidence/b.json"
    (.text "")).insert "evidence/a.json" (.text ""))⟩

theorem reconcile_tail_settles_iff_two_records : evidenceDir.Settles (.attach "") forgotten :=
  (@reconcile_tail_settles_iff MemoryStorage _ _ _ _ evidenceDir (.inl rfl) (.attach "") forgotten
    (by decide +kernel)).mpr fun _ => .inr ⟨⟨_, rfl⟩, _, rfl, by decide +kernel⟩

end Settles

private def torn : LocalStorage := ((⟨.empty⟩ : LocalStorage).put "notes/a.tmp.b" (.text "")).toOption.getD ⟨.empty⟩

/-- A note that a crash left out of the tail and whose name looks like a temporary file's
stays out of it. -/
theorem hidden_note_untracked : ∃ storage : LocalStorage,
    AgentFs.put (⟨.empty⟩ : LocalStorage) "notes/a.tmp.b" (.text "") = .ok storage ∧
      ¬ notesDir.Settles (.attach "") storage := by
  obtain ⟨storage, written, -⟩ := @put_clear ⟨.empty⟩ "notes/a.tmp.b" (by decide +kernel) (.text "")
  have same : torn = storage := by
    unfold torn
    rw [show (⟨.empty⟩ : LocalStorage).put "notes/a.tmp.b" (.text "") = .ok storage from raw_ok written]
    rfl
  refine ⟨torn, same ▸ written, fun settles => ?_⟩
  have complete := settles.complete (by decide +kernel) ⟨0⟩ "a.tmp.b" (by decide +kernel)
  revert complete
  decide +kernel

end Coral.Proofs

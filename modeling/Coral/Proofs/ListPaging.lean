import Coral.Proofs.StorageLaws

/-! Listing a prefix by pages. The cursor of a page is its last key, and the next page goes
on right after it. -/

namespace Coral.Proofs
open Coral.Library

section Follow

variable {σ : Type} [AgentStorage σ]

/-- The pages from a cursor on, each with its own limit, up to the one that has no cursor;
nothing if there are more of them than calls. -/
def follow (storage : σ) (start : String) : (Nat → Nat) → Nat → Option String → Except StorageError (Option (List ListPage))
  | _, 0, _ => .ok none
  | limits, calls + 1, after => do
    let page ← AgentStorage.list storage start after (limits 0)
    match page.nextCursor with
    | none => return some [page]
    | some cursor =>
      let pages ← follow storage start (fun number => limits (number + 1)) calls (some cursor)
      return pages.map (page :: ·)

/-- Following the cursors comes to an end, and the pages are the keys in ascending order. -/
def PagesThrough (storage : σ) (start : String) (listed : List String) (limits : Nat → Nat) : Prop :=
  ∃ calls pages, follow storage start limits calls none = .ok (some pages) ∧
    (pages.flatMap (·.keys)).Pairwise (fun first second => first.toList < second.toList) ∧
      (∀ key, key ∈ pages.flatMap (·.keys) ↔ key ∈ listed) ∧
        ∀ number page, pages[number]? = some page → page.keys.length ≤ limits number

end Follow

section Pages

variable {keys : List String}

/-- The keys after the cursor, in order. -/
def remaining (keys : List String) (after : Option String) : List String :=
  let sorted : List String := keys.insertionSort fun first second => first.toList ≤ second.toList
  match after with
  | some after => sorted.filter fun key => decide (after.toList < key.toList)
  | none => sorted

theorem ListPage.of_remaining (keys : List String) (after : Option String) (limit : Nat) :
    ListPage.of keys after limit = ⟨(remaining keys after).take limit,
      if limit < (remaining keys after).length then ((remaining keys after).take limit).getLast? else none⟩ := rfl

theorem ascending_remaining (distinct : keys.Nodup) (after : Option String) :
    (remaining keys after).Pairwise fun first second => first.toList < second.toList := by
  have apart := (List.perm_insertionSort (fun first second : String => first.toList ≤ second.toList) keys).nodup_iff.mpr
    distinct
  have sorted : (keys.insertionSort fun first second => first.toList ≤ second.toList).Pairwise
      fun first second => first.toList < second.toList := by
    refine List.Pairwise.imp₂ ?_ (pairwise_sorted keys) apart
    intro first second below other
    exact lt_of_le_of_ne below fun same => other (String.toList_inj.mp same)
  cases after with
  | none => exact sorted
  | some after => exact sorted.filter _

/-- What is greater than the last of the first few is what comes after them. -/
theorem filter_last {sorted : List String}
    (ascending : sorted.Pairwise fun first second => first.toList < second.toList) {limit : Nat} {cursor : String}
    (last : (sorted.take limit).getLast? = some cursor) :
    sorted.filter (fun key => decide (cursor.toList < key.toList)) = sorted.drop limit := by
  have split := List.take_append_drop limit sorted
  rw [← split] at ascending
  obtain ⟨first, second, across⟩ := List.pairwise_append.mp ascending
  obtain ⟨front, whole⟩ := List.getLast?_eq_some_iff.mp last
  have below : ∀ key ∈ sorted.take limit, ¬ cursor.toList < key.toList := by
    intro key member
    rw [whole] at member first
    rcases List.mem_append.mp member with early | here
    · exact not_lt_of_gt ((List.pairwise_append.mp first).2.2 key early cursor List.mem_cons_self)
    · rw [List.mem_singleton.mp here]
      exact lt_irrefl _
  have above : ∀ key ∈ sorted.drop limit, cursor.toList < key.toList :=
    fun key member => across cursor (List.mem_of_getLast? last) key member
  calc sorted.filter (fun key => decide (cursor.toList < key.toList))
    _ = (sorted.take limit).filter (fun key => decide (cursor.toList < key.toList)) ++
          (sorted.drop limit).filter (fun key => decide (cursor.toList < key.toList)) := by
      rw [← List.filter_append, split]
    _ = [] ++ sorted.drop limit := by
      rw [List.filter_eq_nil_iff.mpr fun key member => by simpa using below key member,
        List.filter_eq_self.mpr fun key member => by simpa using above key member]

theorem remaining_next (distinct : keys.Nodup) {after : Option String} {limit : Nat} {cursor : String}
    (last : ((remaining keys after).take limit).getLast? = some cursor) :
    remaining keys (some cursor) = (remaining keys after).drop limit := by
  have member : cursor ∈ remaining keys after := List.mem_of_mem_take (List.mem_of_getLast? last)
  rw [← filter_last (ascending_remaining distinct after) last]
  cases after with
  | none => rfl
  | some after =>
    have later : after.toList < cursor.toList := by simpa using (List.mem_filter.mp member).2
    unfold remaining
    dsimp only
    rw [List.filter_filter]
    apply List.filter_congr
    intro key _
    by_cases above : cursor.toList < key.toList
    · simp [above, later.trans above]
    · simp [above]

variable {σ : Type} [AgentStorage σ] {storage : σ} {start : String}

/-- From any cursor on, by induction on the calls: each page shortens what is left. -/
theorem follow_ok (distinct : keys.Nodup)
    (lists : ∀ after limit, AgentStorage.list storage start after limit = .ok (.of keys after limit))
    {limits : Nat → Nat} (positive : ∀ number, 0 < limits number) {calls : Nat} {after : Option String}
    (enough : (remaining keys after).length < calls) :
    ∃ pages, follow storage start limits calls after = .ok (some pages) ∧
      pages.flatMap (·.keys) = remaining keys after ∧
        ∀ number page, pages[number]? = some page → page.keys.length ≤ limits number := by
  induction calls generalizing limits after with
  | zero => omega
  | succ calls ih =>
    have page := lists after (limits 0)
    rw [ListPage.of_remaining] at page
    have bounded : ((remaining keys after).take (limits 0)).length ≤ limits 0 := List.length_take_le _ _
    by_cases further : limits 0 < (remaining keys after).length
    · rw [if_pos further] at page
      have nonempty : (remaining keys after).take (limits 0) ≠ [] := by
        intro empty
        have counted := congrArg List.length empty
        rw [List.length_take, List.length_nil] at counted
        have := positive 0
        omega
      obtain ⟨cursor, last⟩ : ∃ cursor, _ = some cursor := ⟨_, List.getLast?_eq_some_getLast nonempty⟩
      rw [last] at page
      have next := remaining_next distinct last
      have shorter : (remaining keys (some cursor)).length < calls := by
        rw [next, List.length_drop]
        have := positive 0
        omega
      obtain ⟨pages, followed, flat, within⟩ := ih (fun number => positive (number + 1)) shorter
      refine ⟨⟨(remaining keys after).take (limits 0), some cursor⟩ :: pages, ?_, ?_, ?_⟩
      · unfold follow
        rw [page]
        simp only [bind, Except.bind]
        rw [followed]
        rfl
      · rw [List.flatMap_cons, flat, next, List.take_append_drop]
      · intro number page at_number
        cases number with
        | zero =>
          cases at_number
          exact bounded
        | succ number => exact within number page at_number
    · rw [if_neg further] at page
      refine ⟨[⟨(remaining keys after).take (limits 0), none⟩], ?_, ?_, ?_⟩
      · unfold follow
        rw [page]
        rfl
      · rw [List.flatMap_cons, List.flatMap_nil, List.append_nil, List.take_of_length_le (by omega)]
      · intro number page at_number
        cases number with
        | zero =>
          cases at_number
          exact bounded
        | succ number => cases at_number

theorem pagesThrough_of_lists (distinct : keys.Nodup)
    (lists : ∀ after limit, AgentStorage.list storage start after limit = .ok (.of keys after limit))
    {limits : Nat → Nat} (positive : ∀ number, 0 < limits number) : PagesThrough storage start keys limits := by
  obtain ⟨pages, followed, flat, within⟩ :=
    @follow_ok keys σ _ storage start distinct lists limits positive _ none (Nat.lt_succ_self _)
  refine ⟨_, pages, followed, ?_, ?_, within⟩
  · rw [flat]
    exact ascending_remaining distinct none
  · intro key
    rw [flat]
    exact List.mem_insertionSort _

end Pages

/-- The keys under a prefix in memory. -/
def keysUnder (storage : MemoryStorage) (start : String) : List String :=
  storage.inner.keys.filter fun key => startsWithText key start

theorem not_pagesThrough_of_file {storage : LocalStorage} {start : String}
    (file : storage.tree.shape (LocalStorage.scanRoot start) = some .file) (listed : List String) (limits : Nat → Nat) :
    ¬ PagesThrough storage start listed limits := by
  intro ⟨calls, pages, followed, _⟩
  cases calls with
  | zero => cases followed
  | succ calls =>
    unfold follow at followed
    rw [show AgentStorage.list storage start none (limits 0) = .error (.fromIo .notADirectory) from
      list_of_file file none (limits 0)] at followed
    cases followed

/-- In memory paging always goes through, on the disk unless the directory part of the prefix
is a file. -/
theorem list_by_pages_iff (memory : MemoryStorage) (disk : LocalStorage) (start : String) :
    (∀ limits, (∀ number, 0 < limits number) → PagesThrough memory start (keysUnder memory start) limits) ∧
      ((∀ limits, (∀ number, 0 < limits number) → PagesThrough disk start (keysFrom disk start) limits) ↔
        disk.tree.shape (LocalStorage.scanRoot start) ≠ some .file) := by
  refine ⟨fun limits positive => ?_, fun through file => ?_, fun apart => ?_⟩
  · exact pagesThrough_of_lists (memory.inner.keys_nodup.filter _) (fun _ _ => rfl) positive
  · exact not_pagesThrough_of_file file _ _ (through (fun _ => 1) fun _ => Nat.one_pos)
  · exact fun limits positive => pagesThrough_of_lists (nodup_keysFrom disk start) (list_of_keys apart) positive

/-- One file, listed as if it were a directory. -/
theorem file_not_paged : ∃ storage : LocalStorage, (⟨.empty⟩ : LocalStorage).put "a" (.text "") = .ok storage ∧
    ¬ PagesThrough storage "a/" (keysFrom storage "a/") fun _ => 1 := by
  obtain ⟨tree, written⟩ := @FileTree.write_clear _ _ _ FileTree.empty (keyPath "a") (by decide +kernel) (Content.text "")
  refine ⟨⟨tree⟩, ?_, ?_⟩
  · unfold LocalStorage.put
    rw [written]
  · apply not_pagesThrough_of_file
    change tree.shape _ = _
    rw [FileTree.shape_write written]
    decide +kernel

end Coral.Proofs

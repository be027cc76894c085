import Coral.Proofs.NotesRecovery
import Mathlib.Data.List.Dedup

/-! The notes a cycle is told about when the sidecar is lost: what a listing of `notes/` makes
of them, where a whole directory is one entry. -/

namespace Coral.Proofs
open Coral.Library LawfulStorage

/-- The listing does not pass over the key. -/
abbrev Shown (σ : Type) [AgentStorage σ] [LawfulStorage σ] (start key : String) : Prop := @shows σ _ _ start key

/-- Keys are listed under the plain spelling of what they name. -/
class PlainListing (σ : Type) [AgentStorage σ] [LawfulStorage σ] : Prop where
  shown : ∀ (storage : σ) start limit page, AgentStorage.list storage start none limit = .ok page →
    ∀ key ∈ page.keys, Shown σ start key
  spelled : ∀ (storage : σ) base limit page, AgentStorage.list storage (base ++ "/") none limit = .ok page →
    ∀ key ∈ page.keys, ∀ path, (place key : Place σ) = place (base ++ "/" ++ joinPath path) →
      key = base ++ "/" ++ joinPath path

instance : PlainListing MemoryStorage where
  shown _ _ _ _ _ _ _ := trivial
  spelled _ _ _ _ _ _ _ _ same := same

theorem segments_injective : Function.Injective segments := by
  intro first second same
  apply String.toList_inj.mp
  have split : first.toList.splitOn '/' = second.toList.splitOn '/' :=
    List.map_injective_iff.mpr (fun _ _ => String.ofList_injective) same
  have joined := congrArg (['/'].intercalate ·) split
  simpa using joined

theorem segments_toList (raw : String) : segments raw ≠ [] := by
  unfold segments
  simp [List.splitOn_ne_nil]

/-- What is left of a plain key below a directory is plain. -/
theorem plain_rest {base rest : String} {path : List Name} (whole : base ++ "/" ++ rest = joinPath path) :
    rest = joinPath (keyPath rest) := by
  have nonempty : path ≠ [] := by
    rintro rfl
    have empty := congrArg String.toList whole
    simp [joinPath] at empty
  have parts := congrArg segments whole
  rw [segments_append, segments_joinPath nonempty] at parts
  obtain ⟨before, after, rfl, -, later⟩ := List.map_eq_append_iff.mp parts.symm
  have names : keyPath rest = after := by
    unfold keyPath
    rw [← later, List.filterMap_map]
    simp
  have some_left : after ≠ [] := by
    rintro rfl
    exact segments_toList rest later.symm
  apply segments_injective
  rw [names, segments_joinPath some_left, later]

instance : PlainListing LocalStorage where
  shown storage start limit page listed key member := by
    change storage.list start none limit = _ at listed
    unfold LocalStorage.list at listed
    split at listed
    · cases listed
      cases member
    · cases listed
    · cases listed
      obtain ⟨walked, -⟩ := List.mem_filter.mp (ListPage.mem_keys_of member)
      obtain ⟨path, found, same⟩ := List.mem_map.mp walked
      exact ⟨path, same.symm, (mem_walk.mp found).2⟩
  spelled storage base limit page listed key member path same := by
    have starts := (list_ok storage _ none limit page listed key member).1
    change storage.list (base ++ "/") none limit = _ at listed
    unfold LocalStorage.list at listed
    split at listed
    · cases listed
      cases member
    · cases listed
    · cases listed
      obtain ⟨walked, -⟩ := List.mem_filter.mp (ListPage.mem_keys_of member)
      obtain ⟨whole, -, named⟩ := List.mem_map.mp walked
      obtain ⟨rest, stripped⟩ : ∃ rest, stripStart key (base ++ "/") = some rest := ⟨_, if_pos starts⟩
      have here := stripStart_eq stripped
      have plain := plain_rest (here.symm.trans named.symm)
      change keyPath key = _ at same
      rw [here, keyPath_append] at same
      change _ = keyPath (base ++ "/" ++ joinPath path) at same
      rw [keyPath_append, keyPath_joinPath] at same
      rw [here, plain, List.append_cancel_left same]

section Entries

/-- What a listing of `notes/` has for a note. -/
def entry : List Name → String
  | [] => ""
  | [name] => name.text
  | directory :: _ :: _ => directory.text ++ "/"

theorem entry_single {path : List Name} (single : path.length = 1) : entry path = joinPath path := by
  obtain ⟨name, rfl⟩ := List.length_eq_one_iff.mp single
  unfold joinPath
  simp [entry]

theorem slash_ne_joinPath (directory : String) {path : List Name} (nonempty : path ≠ []) : directory ++ "/" ≠ joinPath path := by
  intro same
  have parts := congrArg segments same
  rw [← @String.append_empty (directory ++ "/"), segments_append, segments_joinPath nonempty] at parts
  have member : "" ∈ path.map (·.text) := by
    rw [← parts]
    exact List.mem_append_right _ (by decide)
  obtain ⟨name, -, text⟩ := List.mem_map.mp member
  exact name.plain.1 text

theorem entry_nested {path : List Name} (nested : 1 < path.length) : ∃ directory, entry path = directory ++ "/" := by
  match path, nested with
  | directory :: _ :: _, _ => exact ⟨directory.text, rfl⟩

variable {fs : AgentFs}

/-- The name that `list_dir` has for a key. -/
private def listedAs (fs : AgentFs) (key : String) : Option String :=
  match stripStart key (fs.key "notes/") with
  | none | some "" | some "_tail.json" => none
  | some rest =>
    match segments rest with
    | subdir :: _ :: _ => some (subdir ++ "/")
    | _ => some rest

private theorem listedAs_sidecar : listedAs fs (fs.key NOTES_TAIL_SUFFIX) = none := by
  have stripped : stripStart (fs.key NOTES_TAIL_SUFFIX) (fs.key "notes/") = some "_tail.json" := by
    rw [show NOTES_TAIL_SUFFIX = "notes/" ++ "_tail.json" from rfl, key_append, stripStart_append]
  unfold listedAs
  rw [stripped]
  rfl

private theorem listedAs_noteKey {path : List Name} (proper : path ≠ []) (record : isNoteRecord (joinPath path) = true) :
    listedAs fs (noteKey fs path) = some (entry path) := by
  have named : joinPath path ≠ "" := by
    intro empty
    have parts := congrArg segments empty
    rw [segments_joinPath proper, show segments "" = [""] by decide] at parts
    obtain ⟨name, -, text⟩ := List.mem_map.mp (parts ▸ List.mem_singleton_self "" : "" ∈ path.map (·.text))
    exact name.plain.1 text
  have ordinary : joinPath path ≠ "_tail.json" := by
    intro same
    rw [same] at record
    exact absurd record (by decide)
  unfold listedAs
  rw [stripStart_noteKey]
  split
  · rename_i same
    cases same
  · rename_i same
    exact (named (Option.some.inj same)).elim
  · rename_i same
    exact (ordinary (Option.some.inj same)).elim
  · rename_i rest _ _ same
    obtain rfl := Option.some.inj same
    rw [segments_joinPath proper]
    match path, proper with
    | [name], _ => rw [entry_single rfl]; rfl
    | directory :: _ :: _, _ => rfl

end Entries

section Recall

/-- What a window of at most `n` has to say when these are the notes. -/
structure Recalls (notes : List (List Name)) (n : Nat) (window : RecentWindow) : Prop where
  named : ∀ name ∈ window.filenames, name ∈ notes.map joinPath
  distinct : window.filenames.Nodup
  most : window.filenames.length = min n notes.length
  counted : match window.more with
    | .none => notes.length = window.filenames.length
    | .exactly left => notes.length = window.filenames.length + left
    | .atLeast _ => False

/-- The window on the names that are listed. -/
def listedWindow (listed : List String) (n : Nat) : RecentWindow :=
  ⟨listed.drop (listed.length - n), if listed.length ≤ n then .none else .exactly (listed.length - n)⟩

/-- The last entries are those of notes, and there is one for each note. -/
structure OneEach (notes : List (List Name)) (n : Nat) : Prop where
  apart : (notes.map entry).Nodup
  late : ∀ path ∈ notes, path.length ≠ 1 →
    n ≤ ((notes.map entry).filter fun other => decide ((entry path).toList < other.toList)).length

variable {notes : List (List Name)} {listed : List String} {n : Nat}

private theorem ascending_unique (distinct : listed.Nodup)
    (sorted : listed.Pairwise fun first second => first.toList ≤ second.toList) :
    listed.Pairwise fun first second => first.toList < second.toList := by
  refine List.Pairwise.imp₂ ?_ sorted distinct
  intro first second below other
  exact lt_of_le_of_ne below fun same => other (String.toList_inj.mp same)

/-- Over names that all come from notes, the window is right exactly when no two notes share
an entry and those in directories are out of its reach. -/
theorem recalls_listed_iff (distinct : listed.Nodup)
    (sorted : listed.Pairwise fun first second => first.toList ≤ second.toList) (proper : ∀ path ∈ notes, path ≠ [])
    (within : ∀ name ∈ listed, name ∈ notes.map entry) :
    Recalls notes n (listedWindow listed n) ↔ (∀ path ∈ notes, entry path ∈ listed) ∧ OneEach notes n := by
  have asymm : ∀ first second : String, first.toList < second.toList → ¬ second.toList < first.toList :=
    fun _ _ less => List.lt_asymm less
  have strictly := ascending_unique distinct sorted
  have inside : ∀ name, name ∈ listed.drop (listed.length - n) ↔
      name ∈ listed ∧ (listed.filter fun other => decide (name.toList < other.toList)).length < n :=
    fun name => mem_drop_sorted asymm strictly n
  have dropped : (listed.drop (listed.length - n)).length = min n listed.length := by
    rw [List.length_drop]
    omega
  constructor
  · intro recalls
    have counted := recalls.counted
    simp only [listedWindow, dropped] at counted
    have length : notes.length = listed.length := by
      by_cases all : listed.length ≤ n
      · rw [if_pos all] at counted
        simp only at counted
        omega
      · rw [if_neg all] at counted
        simp only at counted
        omega
    have same : listed.Perm (notes.map entry) := by
      refine (List.subperm_of_subset distinct within).perm_of_length_le ?_
      rw [List.length_map]
      omega
    refine ⟨fun path member => same.mem_iff.mpr (List.mem_map_of_mem member), same.nodup_iff.mp distinct, ?_⟩
    intro path member several
    by_contra few
    have shown : entry path ∈ listed.drop (listed.length - n) := by
      refine (inside _).mpr ⟨same.mem_iff.mpr (List.mem_map_of_mem member), ?_⟩
      rw [(same.filter _).length_eq]
      omega
    obtain ⟨other, noted, named⟩ := List.mem_map.mp (recalls.named _ shown)
    have nested : 1 < path.length := by
      have := List.length_pos_iff.mpr (proper path member)
      omega
    obtain ⟨directory, marker⟩ := entry_nested nested
    exact slash_ne_joinPath directory (proper other noted) (marker.symm.trans named.symm)
  · intro ⟨covered, each⟩
    have same : listed.Perm (notes.map entry) := by
      refine (List.perm_ext_iff_of_nodup distinct each.apart).mpr fun name => ⟨within name, ?_⟩
      intro member
      obtain ⟨path, noted, rfl⟩ := List.mem_map.mp member
      exact covered path noted
    have length : listed.length = notes.length := by
      rw [same.length_eq, List.length_map]
    refine ⟨?_, distinct.sublist (List.drop_sublist _ _), by rw [← length]; exact dropped, ?_⟩
    · intro name member
      obtain ⟨there, few⟩ := (inside name).mp member
      obtain ⟨path, noted, rfl⟩ := List.mem_map.mp (within name there)
      have single : path.length = 1 := by
        by_contra several
        have late := each.late path noted several
        rw [(same.filter _).length_eq] at few
        omega
      rw [entry_single single]
      exact List.mem_map_of_mem noted
    · simp only [listedWindow, dropped]
      by_cases all : listed.length ≤ n
      · rw [if_pos all]
        simp only
        omega
      · rw [if_neg all]
        simp only
        omega

variable {σ : Type} [AgentStorage σ] {fs : AgentFs} {storage : σ}

/-- Without a tail that can be read, the window is on the directory's names. -/
theorem recentNotes_of_listing {found : Option Content} (positive : 1 ≤ n)
    (read : AgentFs.get storage (fs.key NOTES_TAIL_SUFFIX) = .ok found) (lost : found.bind Content.asTail = none)
    (names : fs.listDir storage "notes/" = .ok listed) :
    fs.recentNoteFilenames storage n = .ok (listedWindow listed n) := by
  unfold AgentFs.recentNoteFilenames AgentFs.recentWindow
  rw [if_neg (by omega), read]
  simp only [bind, Except.bind, lost, names, pure, Except.pure, listedWindow, List.length_drop]
  cases left : listed.length - (listed.length - (listed.length - n)) with
  | zero =>
    rw [if_pos (by omega)]
    rfl
  | succ rest =>
    have other : listed.length - n = rest + 1 := by omega
    rw [if_neg (by omega), other]
    rfl

/-- `list_dir` has the names of the listed keys, each once and in order. -/
private theorem listDir_ok {keys : List String} (found : AgentFs.listAll storage (fs.key "notes/") = .ok keys) :
    ∃ listed, fs.listDir storage "notes/" = .ok listed ∧ listed.Nodup ∧
      listed.Pairwise (fun first second => first.toList ≤ second.toList) ∧
        ∀ name, name ∈ listed ↔ ∃ key ∈ keys, listedAs fs key = some name := by
  refine ⟨(keys.filterMap (listedAs fs)).dedup.insertionSort fun first second => first.toList ≤ second.toList,
    ?_, ?_, pairwise_sorted _, ?_⟩
  · unfold AgentFs.listDir
    rw [dirPrefix_notes]
    change (AgentFs.listAll storage (fs.key "notes/") >>= _) = _
    rw [found]
    rfl
  · exact (List.perm_insertionSort _ _).nodup_iff.mpr (List.nodup_dedup _)
  · intro name
    rw [List.mem_insertionSort, List.mem_dedup, List.mem_filterMap]

variable [LawfulStorage σ]

/-- Under `notes/` there is nothing but these notes and the sidecar. -/
def NothingElse (fs : AgentFs) (storage : σ) (notes : List (List Name)) : Prop :=
  ∀ key, keyPath (fs.key "notes") <+: keyPath key → viewAt storage key ≠ none →
    (place key : Place σ) = place (fs.key NOTES_TAIL_SUFFIX) ∨
      ∃ path ∈ notes, (place key : Place σ) = place (noteKey fs path)

omit [LawfulStorage σ] in
theorem listAll_page {start : String} {keys : List String} (listed : AgentFs.listAll storage start = .ok keys) :
    ∃ page, AgentStorage.list storage start none usizeMax = .ok page ∧ page.keys = keys := by
  obtain ⟨page, found, same⟩ := bind_ok listed
  cases same
  cases list : AgentStorage.list storage start none usizeMax with
  | error source =>
    rw [list] at found
    cases found
  | ok other =>
    rw [list] at found
    cases found
    exact ⟨page, rfl, rfl⟩

private theorem noteKey_below (fs : AgentFs) (path : List Name) : noteKey fs path = fs.key "notes" ++ "/" ++ joinPath path := by
  have base : fs.key "notes/" = fs.key "notes" ++ "/" := key_append fs "notes" "/"
  unfold noteKey
  rw [key_append, base]

/-- What is listed is the sidecar and notes. -/
theorem listAll_only [PlainListing σ] {keys : List String} (alone : NothingElse fs storage notes)
    (listed : AgentFs.listAll storage (fs.key "notes/") = .ok keys) :
    ∀ key ∈ keys, key = fs.key NOTES_TAIL_SUFFIX ∨ ∃ path ∈ notes, key = noteKey fs path := by
  obtain ⟨page, found, rfl⟩ := listAll_page listed
  have base : fs.key "notes/" = fs.key "notes" ++ "/" := key_append fs "notes" "/"
  intro key member
  obtain ⟨starts, there⟩ := list_ok storage _ none usizeMax page found key member
  obtain ⟨rest, stripped⟩ : ∃ rest, stripStart key (fs.key "notes/") = some rest := ⟨_, if_pos starts⟩
  have below : keyPath (fs.key "notes") <+: keyPath key := by
    rw [stripStart_eq stripped, base, keyPath_append]
    exact List.prefix_append _ _
  rw [base] at found
  rcases alone key below (Option.isSome_iff_ne_none.mp there) with sidecar | ⟨path, member', same⟩
  · left
    have plain := noteKey_below fs [tailName]
    have spelled := PlainListing.spelled storage _ usizeMax page found key member [tailName]
    rw [← plain] at spelled
    exact spelled sidecar
  · right
    refine ⟨path, member', ?_⟩
    rw [noteKey_below fs path] at same ⊢
    exact PlainListing.spelled storage _ usizeMax page found key member path same

/-- A listing that is not cut off has the notes that it does not pass over. -/
theorem mem_listAll [PlainListing σ] {keys : List String} (existing : Existing fs storage notes)
    (listed : AgentFs.listAll storage (fs.key "notes/") = .ok keys) (fits : keys.length < usizeMax) {path : List Name}
    (member : path ∈ notes) : noteKey fs path ∈ keys ↔ Shown σ (fs.key "notes/") (noteKey fs path) := by
  obtain ⟨page, found, rfl⟩ := listAll_page listed
  refine ⟨PlainListing.shown storage _ usizeMax page found _, ?_⟩
  intro shown
  apply list_complete storage _ usizeMax page found fits _ _ ((existing.mem_iff path).mp member).2.2 shown
  unfold noteKey
  rw [key_append]
  exact startsWithText_append _ _

/-- The notes are recalled without their sidecar exactly when the listing passes over none of
them, has an entry for each, and the entries of directories lie before the window. -/
theorem listed_notes_iff [PlainListing σ] {keys : List String} {found : Option Content}
    (existing : Existing fs storage notes) (alone : NothingElse fs storage notes)
    (read : AgentFs.get storage (fs.key NOTES_TAIL_SUFFIX) = .ok found) (lost : found.bind Content.asTail = none)
    (listed : AgentFs.listAll storage (fs.key "notes/") = .ok keys) (fits : keys.length < usizeMax)
    (positive : 1 ≤ n) :
    (∃ window, fs.recentNoteFilenames storage n = .ok window ∧ Recalls notes n window) ↔
      (∀ path ∈ notes, Shown σ (fs.key "notes/") (noteKey fs path)) ∧ OneEach notes n := by
  obtain ⟨names, dir, distinct, sorted, mem_names⟩ := listDir_ok listed
  have only := listAll_only alone listed
  have proper : ∀ path ∈ notes, path ≠ [] := fun path member => ((existing.mem_iff path).mp member).1
  have entry_of : ∀ path ∈ notes, listedAs fs (noteKey fs path) = some (entry path) := by
    intro path member
    obtain ⟨nonempty, record, -⟩ := (existing.mem_iff path).mp member
    exact listedAs_noteKey nonempty record
  have from_note : ∀ name ∈ names, ∃ path ∈ notes, noteKey fs path ∈ keys ∧ entry path = name := by
    intro name member
    obtain ⟨key, there, named⟩ := (mem_names name).mp member
    rcases only key there with rfl | ⟨path, noted, rfl⟩
    · rw [listedAs_sidecar] at named
      cases named
    · rw [entry_of path noted] at named
      exact ⟨path, noted, there, Option.some.inj named⟩
  have within : ∀ name ∈ names, name ∈ notes.map entry := by
    intro name member
    obtain ⟨path, noted, -, same⟩ := from_note name member
    exact List.mem_map.mpr ⟨path, noted, same⟩
  have told : (∃ window, fs.recentNoteFilenames storage n = .ok window ∧ Recalls notes n window) ↔
      Recalls notes n (listedWindow names n) := by
    rw [recentNotes_of_listing positive read lost dir]
    constructor
    · intro ⟨window, same, recalls⟩
      cases same
      exact recalls
    · exact fun recalls => ⟨_, rfl, recalls⟩
  rw [told, recalls_listed_iff distinct sorted proper within]
  apply and_congr_left
  intro each
  apply forall₂_congr
  intro path member
  rw [← mem_listAll existing listed fits member, mem_names]
  constructor
  · intro ⟨key, there, named⟩
    obtain ⟨other, noted, listed', same⟩ := from_note _ ((mem_names _).mpr ⟨key, there, named⟩)
    rw [← List.inj_on_of_nodup_map each.apart noted member same]
    exact listed'
  · exact fun there => ⟨_, there, entry_of path member⟩

end Recall

theorem nothingElse_memory {fs : AgentFs} {storage : MemoryStorage} {notes : List (List Name)}
    (keys : storage.inner.keys.Perm (fs.key NOTES_TAIL_SUFFIX :: notes.map (noteKey fs))) : NothingElse fs storage notes := by
  intro key _ there
  have member : key ∈ storage.inner.keys := AList.mem_keys.mp (AList.lookup_isSome.mp (Option.isSome_iff_ne_none.mpr there))
  rcases List.mem_cons.mp (keys.mem_iff.mp member) with sidecar | listed
  · exact .inl sidecar
  · obtain ⟨path, noted, same⟩ := List.mem_map.mp listed
    exact .inr ⟨path, noted, same.symm⟩

/-- A torn sidecar, and the notes of these names. -/
private def tornNotes (names : List String) : MemoryStorage :=
  ⟨names.foldl (fun inner name => inner.insert ("notes/" ++ name) (.text "")) (AList.insert "notes/_tail.json" (.text "") ∅)⟩

theorem listed_notes_iff_two_notes :
    ∃ window, (⟨""⟩ : AgentFs).recentNoteFilenames (tornNotes ["a", "b"]) 1 = .ok window ∧
      Recalls [[⟨"a", by decide⟩], [⟨"b", by decide⟩]] 1 window := by
  have keys : (tornNotes ["a", "b"]).inner.keys.Perm
      ((⟨""⟩ : AgentFs).key NOTES_TAIL_SUFFIX :: [[⟨"a", by decide⟩], [⟨"b", by decide⟩]].map (noteKey ⟨""⟩)) := by
    decide +kernel
  have listed : AgentFs.listAll (tornNotes ["a", "b"]) ((⟨""⟩ : AgentFs).key "notes/") =
      .ok ["notes/_tail.json", "notes/a", "notes/b"] := by decide +kernel
  refine (listed_notes_iff (existing_memory (by decide) (by decide) keys) (nothingElse_memory keys) rfl rfl listed
    (by decide) (Nat.le_refl 1)).mpr ⟨fun _ _ => trivial, by decide, ?_⟩
  decide

/-- Of the two notes in a directory the listing makes one, which is not there. -/
theorem directory_told_as_note :
    ¬ ∀ (fs : AgentFs) (storage : MemoryStorage) (notes : List (List Name)) (keys : List String) (found : Option Content)
        (n : Nat), Existing fs storage notes → NothingElse fs storage notes →
      AgentFs.get storage (fs.key NOTES_TAIL_SUFFIX) = .ok found → found.bind Content.asTail = none →
      AgentFs.listAll storage (fs.key "notes/") = .ok keys → 1 ≤ n →
        ∃ window, fs.recentNoteFilenames storage n = .ok window ∧ Recalls notes n window := by
  intro told
  have keys : (tornNotes ["a/x", "a/y"]).inner.keys.Perm ((⟨""⟩ : AgentFs).key NOTES_TAIL_SUFFIX ::
      [[⟨"a", by decide⟩, ⟨"x", by decide⟩], [⟨"a", by decide⟩, ⟨"y", by decide⟩]].map (noteKey ⟨""⟩)) := by
    decide +kernel
  have listed : AgentFs.listAll (tornNotes ["a/x", "a/y"]) ((⟨""⟩ : AgentFs).key "notes/") =
      .ok ["notes/_tail.json", "notes/a/x", "notes/a/y"] := by decide +kernel
  have answer : (⟨""⟩ : AgentFs).recentNoteFilenames (tornNotes ["a/x", "a/y"]) 2 = .ok ⟨["a/"], .none⟩ := by decide +kernel
  obtain ⟨window, got, recalls⟩ := told ⟨""⟩ _ _ _ _ 2 (existing_memory (by decide) (by decide) keys)
    (nothingElse_memory keys) rfl rfl listed (by decide)
  rw [answer] at got
  obtain rfl := Except.ok.inj got
  exact absurd recalls.most (by decide)

end Coral.Proofs

import Coral.Proofs.EvidenceNames
import Coral.Proofs.NotesListing

/-! The window on the latest evidence. The tail has the files in the order they were first
written in, the listing in the order of their names. -/

namespace Coral.Proofs
open Coral.Library LawfulStorage

/-- What is there can be read, and what it lies below can be listed. -/
class Answering (σ : Type) [AgentStorage σ] [LawfulStorage σ] : Prop where
  get_present : ∀ (storage : σ) key content, view storage (place key) = some content →
    AgentStorage.get storage key = .ok (some content)
  list_present : ∀ (storage : σ) base path limit, path ≠ [] →
    (view storage (place (base ++ "/" ++ joinPath path))).isSome = true →
      ∃ page, AgentStorage.list storage (base ++ "/") none limit = .ok page

instance : Answering MemoryStorage where
  get_present _ _ _ found := congrArg Except.ok found
  list_present _ _ _ _ _ _ := ⟨_, rfl⟩

instance : Answering LocalStorage where
  get_present storage key content found := by
    change storage.tree.read (keyPath key) = some content at found
    obtain ⟨other, file⟩ := FileTree.shape_file_iff.mp (FileTree.isSome_read.mp (Option.isSome_iff_exists.mpr ⟨_, found⟩))
    rw [FileTree.read_of_file file] at found
    change storage.get key = _
    unfold LocalStorage.get
    rw [FileTree.resolve_file file, ← found]
  list_present storage base path limit proper there := by
    change (storage.tree.read (keyPath (base ++ "/" ++ joinPath path))).isSome = true at there
    rw [keyPath_append, keyPath_joinPath, FileTree.isSome_read] at there
    obtain ⟨content, file⟩ := FileTree.shape_file_iff.mp there
    have above := storage.tree.lookup_above file proper
    change ∃ page, storage.list (base ++ "/") none limit = .ok page
    unfold LocalStorage.list
    rw [scanRoot_dir, above]
    exact ⟨_, rfl⟩

namespace Observed

def filename (observed : Observed) : String := (stripStart observed.relpath "evidence/").getD observed.relpath

end Observed

/-- The calls that wrote a record, the last one first. A path that is taken is not written again. -/
def firstWrites (history : List Observed) : List Observed :=
  history.foldl (fun written observed =>
    if written.any (·.relpath == observed.relpath) then written else observed :: written) []

/-- In the order of the filenames. -/
def byName (written : List Observed) : List Observed :=
  written.insertionSort fun first second => first.filename.toList ≤ second.filename.toList

/-- The `n` records that were first written last. -/
def lastWritten (history : List Observed) (n : Nat) : List Observed := byName ((firstWrites history).take n)

/-- The `n` records of the greatest names. -/
def lastNamed (history : List Observed) (n : Nat) : List Observed :=
  (byName (firstWrites history)).drop ((firstWrites history).length - n)

section Names

theorem filename_name (observed : Observed) : ∃ name : Name, observed.filename = name.text ∧
    observed.relpath = "evidence/" ++ name.text ∧ '_' ∉ name.text.toList := by
  obtain ⟨name, text, free⟩ := relpath_name observed
  refine ⟨name, ?_, text, free⟩
  unfold Observed.filename
  rw [text, stripStart_append, Option.getD_some]

theorem relpath_eq (observed : Observed) : observed.relpath = "evidence/" ++ observed.filename := by
  obtain ⟨name, same, text, -⟩ := filename_name observed
  rw [same, text]

theorem filename_inj {first second : Observed} (same : first.filename = second.filename) :
    first.relpath = second.relpath := by
  rw [relpath_eq first, same, ← relpath_eq]

theorem firstWrites_snoc (history : List Observed) (observed : Observed) :
    firstWrites (history ++ [observed]) =
      if (firstWrites history).any (·.relpath == observed.relpath) then firstWrites history
      else observed :: firstWrites history := by
  unfold firstWrites
  rw [List.foldl_append]
  rfl

/-- Each path of the history is first written once. -/
theorem firstWrites_spec (history : List Observed) :
    ((firstWrites history).map Observed.relpath).Nodup ∧
      ∀ path, (∃ observed ∈ firstWrites history, observed.relpath = path) ↔ ∃ observed ∈ history, observed.relpath = path := by
  induction history using List.reverseRecOn with
  | nil => exact ⟨List.nodup_nil, fun _ => Iff.rfl⟩
  | append_singleton history observed ih =>
    obtain ⟨distinct, paths⟩ := ih
    rw [firstWrites_snoc]
    by_cases known : (firstWrites history).any (·.relpath == observed.relpath) = true
    · rw [if_pos known]
      refine ⟨distinct, fun path => ?_⟩
      obtain ⟨earlier, member, same⟩ := List.any_eq_true.mp known
      rw [paths path]
      constructor
      · intro ⟨other, among, named⟩
        exact ⟨other, List.mem_append_left _ among, named⟩
      · intro ⟨other, among, named⟩
        rcases List.mem_append.mp among with old | new
        · exact ⟨other, old, named⟩
        · rw [List.mem_singleton.mp new, ← eq_of_beq same] at named
          exact (paths path).mp ⟨earlier, member, named⟩
    · rw [if_neg known]
      have fresh : ∀ earlier ∈ firstWrites history, earlier.relpath ≠ observed.relpath := by
        intro earlier member same
        exact known (List.any_eq_true.mpr ⟨earlier, member, beq_iff_eq.mpr same⟩)
      refine ⟨?_, fun path => ?_⟩
      · rw [List.map_cons, List.nodup_cons]
        refine ⟨?_, distinct⟩
        intro member
        obtain ⟨earlier, among, same⟩ := List.mem_map.mp member
        exact fresh earlier among same
      · simp only [List.mem_cons, List.mem_append, List.not_mem_nil, or_false, or_and_right, exists_or,
          exists_eq_left, paths path]
        exact Or.comm

theorem byName_perm (written : List Observed) : (byName written).Perm written := List.perm_insertionSort _ _

theorem ascending_byName (written : List Observed) :
    (byName written).Pairwise fun first second => first.filename.toList ≤ second.filename.toList := by
  have : Std.Total fun first second : Observed => first.filename.toList ≤ second.filename.toList := ⟨fun _ _ => le_total _ _⟩
  have : IsTrans Observed fun first second => first.filename.toList ≤ second.filename.toList := ⟨fun _ _ _ => le_trans⟩
  exact List.pairwise_insertionSort _ written

theorem filename_inj_on {history : List Observed} {first second : Observed} (here : first ∈ firstWrites history)
    (there : second ∈ firstWrites history) (same : first.filename = second.filename) : first = second :=
  List.inj_on_of_nodup_map (firstWrites_spec history).1 here there (filename_inj same)

/-- The greatest names are the latest ones exactly when each late name is greater than every earlier one. -/
theorem lastNamed_eq_iff {history : List Observed} {n : Nat} :
    lastNamed history n = lastWritten history n ↔ ∀ recent ∈ (firstWrites history).take n,
      ∀ older ∈ (firstWrites history).drop n, older.filename.toList < recent.filename.toList := by
  have distinct : (firstWrites history).Nodup := (firstWrites_spec history).1.of_map
  have whole := byName_perm (firstWrites history)
  constructor
  · intro same recent late older early
    have named : recent ∈ (byName (firstWrites history)).drop ((firstWrites history).length - n) := by
      change recent ∈ lastNamed history n
      rw [same]
      exact (byName_perm _).mem_iff.mpr late
    have outside : older ∉ lastNamed history n := by
      rw [same]
      intro member
      have among := (byName_perm _).mem_iff.mp member
      rw [← List.take_append_drop n (firstWrites history)] at distinct
      exact (List.nodup_append.mp distinct).2.2 older among older early rfl
    have split := ascending_byName (firstWrites history)
    rw [← List.take_append_drop ((firstWrites history).length - n) (byName (firstWrites history)), List.pairwise_append] at split
    have before : older ∈ (byName (firstWrites history)).take ((firstWrites history).length - n) := by
      have member := whole.mem_iff.mpr (List.mem_of_mem_drop early)
      rw [← List.take_append_drop ((firstWrites history).length - n) (byName (firstWrites history))] at member
      exact (List.mem_append.mp member).resolve_right outside
    apply lt_of_le_of_ne (split.2.2 older before recent named)
    intro alike
    have equal := filename_inj_on (List.mem_of_mem_drop early) (List.mem_of_mem_take late) (String.toList_inj.mp alike)
    rw [equal] at outside
    exact outside named
  · intro later
    have parts : byName (firstWrites history) =
        byName ((firstWrites history).drop n) ++ byName ((firstWrites history).take n) := by
      apply List.Perm.eq_of_pairwise _ (ascending_byName _)
      · apply List.pairwise_append.mpr ⟨ascending_byName _, ascending_byName _, ?_⟩
        intro older early recent late
        exact le_of_lt (later recent ((byName_perm _).mem_iff.mp late) older ((byName_perm _).mem_iff.mp early))
      · apply whole.trans
        apply List.Perm.trans _ ((byName_perm _).append (byName_perm _)).symm
        conv_lhs => rw [← List.take_append_drop n (firstWrites history)]
        exact List.perm_append_comm
      · intro first second here there below above
        refine filename_inj_on (whole.mem_iff.mp here) ?_ (String.toList_inj.mp (le_antisymm below above))
        rcases List.mem_append.mp there with early | late
        · exact List.mem_of_mem_drop ((byName_perm _).mem_iff.mp early)
        · exact List.mem_of_mem_take ((byName_perm _).mem_iff.mp late)
    unfold lastNamed lastWritten
    rw [parts, List.drop_left']
    rw [(byName_perm _).length_eq, List.length_drop]

private theorem map_inj_on {α β : Type} {convert : α → β} {first second : List α}
    (apart : ∀ item ∈ first, ∀ other ∈ second, convert item = convert other → item = other)
    (same : first.map convert = second.map convert) : first = second := by
  induction first generalizing second with
  | nil => exact (List.map_eq_nil_iff.mp same.symm).symm
  | cons item rest ih =>
    obtain ⟨other, others, rfl, alike, tails⟩ := List.map_eq_cons_iff.mp same.symm
    rw [apart item List.mem_cons_self other List.mem_cons_self alike.symm]
    congr 1
    exact ih (fun item here other there => apart item (List.mem_cons_of_mem _ here) other (List.mem_cons_of_mem _ there))
      tails.symm

/-- Where no two files have the same record, the records tell the files. -/
theorem records_eq_iff {history : List Observed} {n : Nat} (apart : ((firstWrites history).map Observed.record).Nodup) :
    (lastNamed history n).map Observed.record = (lastWritten history n).map Observed.record ↔
      ∀ recent ∈ (firstWrites history).take n, ∀ older ∈ (firstWrites history).drop n,
        older.filename.toList < recent.filename.toList := by
  rw [← lastNamed_eq_iff]
  refine ⟨fun same => ?_, congrArg _⟩
  have named : ∀ observed ∈ lastNamed history n, observed ∈ firstWrites history :=
    fun observed member => (byName_perm _).mem_iff.mp (List.mem_of_mem_drop member)
  have written : ∀ observed ∈ lastWritten history n, observed ∈ firstWrites history :=
    fun observed member => List.mem_of_mem_take ((byName_perm _).mem_iff.mp member)
  exact map_inj_on (fun first here second there => List.inj_on_of_nodup_map apart (named first here) (written second there)) same

end Names

section Runs

variable {σ : Type} [AgentStorage σ] [LawfulStorage σ] {fs : AgentFs} {storage : σ}

/-- No evidence has been recorded, and nothing is in its directory. -/
structure FreshEvidence (fs : AgentFs) (storage : σ) : Prop where
  unrecorded : Unrecorded fs storage
  blank : ∀ key, keyPath (fs.key "evidence") <+: keyPath key → viewAt storage key = none
  sidecar : AgentFs.get storage (fs.key EVIDENCE_TAIL_SUFFIX) = .ok none
  listed : AgentFs.listAll storage (fs.key "evidence/") = .ok []

/-- The directory has what was first written and the tail, which has the latest names. -/
structure Indexed (fs : AgentFs) (history : List Observed) (storage : σ) : Prop where
  held : ∀ observed ∈ firstWrites history,
    viewAt storage (fs.key observed.relpath) = some (.evidence observed.record)
  alone : ∀ key, keyPath (fs.key "evidence") <+: keyPath key → viewAt storage key ≠ none →
    (place key : Place σ) = place (fs.key EVIDENCE_TAIL_SUFFIX) ∨
      ∃ observed ∈ firstWrites history, (place key : Place σ) = place (fs.key observed.relpath)
  tracked : (tailAt storage (fs.key EVIDENCE_TAIL_SUFFIX)).entries.map (·.filename) =
    ((firstWrites history).map Observed.filename).take TAIL_K
  formed : ∀ content, viewAt storage (fs.key EVIDENCE_TAIL_SUFFIX) = some content → content.asTail.isSome = true
  untouched : viewAt storage (fs.key EVIDENCE_TAIL_SUFFIX) = none → firstWrites history = [] ∧
    AgentFs.get storage (fs.key EVIDENCE_TAIL_SUFFIX) = .ok none ∧ AgentFs.listAll storage (fs.key "evidence/") = .ok []

theorem FreshEvidence.indexed (fresh : FreshEvidence fs storage) : Indexed fs [] storage where
  held observed member := by cases member
  alone key below there := (there (fresh.blank key below)).elim
  tracked := by
    have missing := get_spec fresh.sidecar
    unfold tailAt
    rw [← missing]
    rfl
  formed content found := by
    rw [← get_spec fresh.sidecar] at found
    cases found
  untouched _ := ⟨rfl, fresh.sidecar, fresh.listed⟩

private theorem take_new (names : List String) (name : String) (fresh : name ∉ names) :
    (name :: (names.take TAIL_K).filter (· != name)).take TAIL_K = (name :: names).take TAIL_K := by
  have kept : (names.take TAIL_K).filter (· != name) = names.take TAIL_K := by
    apply List.filter_eq_self.mpr
    intro other member
    rw [bne_iff_ne]
    rintro rfl
    exact fresh (List.mem_of_mem_take member)
  rw [kept, show TAIL_K = 63 + 1 from rfl, List.take_succ_cons, List.take_succ_cons, List.take_take]
  rfl

private theorem tracked_appended {tail : TailObject} {names : List String} {name : String}
    (tracked : tail.entries.map (·.filename) = names.take TAIL_K) (fresh : name ∉ names) (now : DateTime) :
    (appended tail name now).entries.map (·.filename) = (name :: names).take TAIL_K := by
  rw [← take_new _ _ fresh, ← tracked]
  unfold appended
  rw [List.map_take, List.map_cons, List.filter_map]
  rfl

theorem Indexed.step {history : List Observed} {observed : Observed} {next : σ} {more : List String}
    (recorded : Recorded fs history storage) (indexed : Indexed fs history storage)
    (stepped : (recordings fs).step storage observed = some (next, more)) : Indexed fs (history ++ [observed]) next := by
  obtain ⟨-, paths⟩ := firstWrites_spec history
  cases (recordings_entered stepped).1 with
  | known taken same =>
    obtain ⟨earlier, member, path⟩ := (paths _).mpr (recorded.known taken)
    have unchanged : firstWrites (history ++ [observed]) = firstWrites history := by
      rw [firstWrites_snoc, if_pos]
      exact List.any_eq_true.mpr ⟨earlier, member, beq_iff_eq.mpr path⟩
    refine ⟨?_, ?_, ?_, ?_, ?_⟩
    · rw [unchanged]
      exact fun other among => (same _).trans (indexed.held other among)
    · rw [unchanged]
      exact fun key below there => indexed.alone key below (same key ▸ there)
    · rw [unchanged, ← indexed.tracked]
      unfold tailAt
      rw [same]
    · exact fun content found => indexed.formed content (same _ ▸ found)
    · intro missing
      rw [(indexed.untouched (same _ ▸ missing)).1] at member
      cases member
  | new absent written tailed elsewhere =>
    have fresh : ∀ earlier ∈ firstWrites history, earlier.relpath ≠ observed.relpath := by
      intro earlier member same
      have found := indexed.held earlier member
      rw [same, absent] at found
      cases found
    have extended : firstWrites (history ++ [observed]) = observed :: firstWrites history := by
      rw [firstWrites_snoc, if_neg]
      intro known
      obtain ⟨earlier, member, same⟩ := List.any_eq_true.mp known
      exact fresh earlier member (eq_of_beq same)
    refine ⟨?_, ?_, ?_, ?_, ?_⟩
    · intro other among
      rw [extended] at among
      rcases List.mem_cons.mp among with rfl | old
      · exact written
      · rw [elsewhere _ (place_relpath fs (fresh other old)) (place_tail fs other)]
        exact indexed.held other old
    · intro key below there
      rw [extended]
      by_cases sidecar : (place key : Place σ) = place (fs.key EVIDENCE_TAIL_SUFFIX)
      · exact .inl sidecar
      · by_cases here : (place key : Place σ) = place (fs.key observed.relpath)
        · exact .inr ⟨observed, List.mem_cons_self, here⟩
        · rcases indexed.alone key below (elsewhere key here sidecar ▸ there) with other | ⟨earlier, member, same⟩
          · exact .inl other
          · exact .inr ⟨earlier, List.mem_cons_of_mem _ member, same⟩
    · have unseen : observed.filename ∉ (firstWrites history).map Observed.filename := by
        intro member
        obtain ⟨earlier, among, same⟩ := List.mem_map.mp member
        exact fresh earlier among (filename_inj same)
      have seen : tailAt next (fs.key EVIDENCE_TAIL_SUFFIX) =
          appended (tailAt storage (fs.key EVIDENCE_TAIL_SUFFIX)) observed.filename observed.now := by
        rw [tailAt, tailed, Option.bind_some, Content.asTail, Option.getD_some]
        rfl
      rw [seen, extended, List.map_cons]
      exact tracked_appended indexed.tracked unseen observed.now
    · intro content found
      rw [tailed] at found
      rw [← Option.some.inj found]
      rfl
    · intro missing
      rw [tailed] at missing
      exact (Option.some_ne_none _ missing).elim

theorem indexed_run {history : List Observed} {final : σ} {paths : List String} (fresh : FreshEvidence fs storage)
    (ran : (recordings fs).run storage history = some (final, paths)) : Indexed fs history final := by
  have both := (recordings fs).history_invariant
    (fun history final _ => Recorded fs history final ∧ Indexed fs history final)
    ⟨⟨nofun, fun observed _ => fresh.unrecorded observed⟩, fresh.indexed⟩ (by
      intro history middle _ observed next more held stepped
      exact ⟨(held.1.step stepped).2, held.2.step held.1 stepped⟩) ran
  exact both.2

omit [LawfulStorage σ] in
private theorem getMany_held {written : List Observed}
    (held : ∀ observed ∈ written, AgentStorage.get storage (fs.key observed.relpath) = .ok (some (.evidence observed.record))) :
    AgentStorage.getMany storage (written.map fun observed => fs.key observed.relpath) =
      .ok (written.map fun observed => some (.evidence observed.record)) := by
  unfold AgentStorage.getMany
  induction written with
  | nil => rfl
  | cons observed written ih =>
    rw [List.map_cons, List.mapM_cons, held observed List.mem_cons_self,
      ih fun other member => held other (List.mem_cons_of_mem _ member)]
    rfl

theorem decodeAll_records (records : List EvidenceRecord) :
    AgentFs.decodeAll Content.asEvidence (records.map fun record => some (.evidence record)) = .ok records := by
  induction records with
  | nil => rfl
  | cons record records ih =>
    rw [List.map_cons, AgentFs.decodeAll]
    simp only [Content.asEvidence, ih]
    rfl

omit [LawfulStorage σ] in
/-- The records at the keys, in their order. -/
theorem readKeys_held {written : List Observed} (start : String)
    (held : ∀ observed ∈ written, AgentStorage.get storage (fs.key observed.relpath) = .ok (some (.evidence observed.record))) :
    AgentFs.readKeys Content.asEvidence start (written.map fun observed => fs.key observed.relpath) storage =
      .ok (written.map Observed.record) := by
  unfold AgentFs.readKeys
  by_cases empty : written = []
  · subst empty
    rfl
  · rw [if_neg (by simpa using empty), getMany_held held]
    have decoded := decodeAll_records (written.map Observed.record)
    rw [List.map_map] at decoded
    exact decoded

private theorem toList_le_append (start first second : String) :
    first.toList ≤ second.toList ↔ (start ++ first).toList ≤ (start ++ second).toList := by
  rw [String.toList_append, String.toList_append]
  induction start.toList with
  | nil => rfl
  | cons char chars ih =>
    rw [ih, List.cons_append, List.cons_append, ← not_lt, ← not_lt, List.cons_lt_cons_iff]
    simp

/-- The keys of files, in their order, are those of the names in theirs. -/
theorem sorted_keys (fs : AgentFs) {written : List Observed} {keys : List String}
    (same : keys.Perm (written.map fun observed => fs.key observed.relpath)) :
    (keys.insertionSort fun first second => first.toList ≤ second.toList) =
      (byName written).map fun observed => fs.key observed.relpath := by
  have named : ∀ observed : Observed, fs.key observed.relpath = fs.key "evidence/" ++ observed.filename := by
    intro observed
    rw [relpath_eq, key_append]
  have monotone : (byName written).map (fun observed => fs.key observed.relpath) =
      (written.map fun observed => fs.key observed.relpath).insertionSort fun first second => first.toList ≤ second.toList := by
    apply List.map_insertionSort
    intro first _ second _
    rw [named, named]
    exact toList_le_append _ _ _
  rw [monotone]
  apply List.Perm.eq_of_pairwise _ (pairwise_sorted _) (pairwise_sorted _)
  · exact ((List.perm_insertionSort _ _).trans same).trans (List.perm_insertionSort _ _).symm
  · intro first second _ _ before later
    exact String.toList_inj.mp (le_antisymm before later)

end Runs

section Keys

theorem endsWithText_append (text ending : String) : endsWithText (text ++ ending) ending = true := by
  unfold endsWithText
  rw [String.toList_append]
  exact List.isSuffixOf_iff_suffix.mpr (List.suffix_append _ _)

theorem endsWithText_eq {text ending : String} (ends : endsWithText text ending = true) : ∃ base, text = base ++ ending := by
  obtain ⟨base, whole⟩ := List.isSuffixOf_iff_suffix.mp ends
  refine ⟨String.ofList base, String.toList_inj.mp ?_⟩
  rw [String.toList_append, String.toList_ofList, whole]

private theorem ends_json (fs : AgentFs) (observed : Observed) : endsWithText (fs.key observed.relpath) ".json" = true := by
  unfold Observed.relpath evidenceRelpath
  simp only
  split <;> rw [key_append] <;> exact endsWithText_append _ _

private theorem not_ends_tail (fs : AgentFs) (observed : Observed) :
    endsWithText (fs.key observed.relpath) "/_tail.json" = false := by
  obtain ⟨name, -, free, path⟩ := keyPath_relpath fs observed
  rw [Bool.eq_false_iff]
  intro ends
  obtain ⟨base, whole⟩ := endsWithText_eq ends
  have other : keyPath (fs.key observed.relpath) = keyPath base ++ [tailName] := by
    rw [whole, show base ++ "/_tail.json" = base ++ "/" ++ "_tail.json" by rw [String.append_assoc]; rfl, keyPath_append]
    rfl
  rw [path] at other
  obtain rfl := List.singleton_inj.mp (List.append_inj' other rfl).2
  revert free
  decide

private theorem tail_ends_tail (fs : AgentFs) : endsWithText (fs.key EVIDENCE_TAIL_SUFFIX) "/_tail.json" = true := by
  rw [show EVIDENCE_TAIL_SUFFIX = "evidence" ++ "/_tail.json" from rfl, key_append]
  exact endsWithText_append _ _

/-- On the disk no file of evidence is passed over, where the agent's directory is spelled plainly. -/
theorem located_local {fs : AgentFs} {above : List Name} (plain : fs.key "evidence" = joinPath above) (observed : Observed) :
    Shown LocalStorage (fs.key "evidence/") (fs.key observed.relpath) := by
  obtain ⟨body, path, words⟩ := relpath_word observed
  obtain ⟨name, text, -⟩ := relpath_name observed
  have named : name.text = String.ofList body ++ ".json" := (String.append_right_inj _).mp (text.symm.trans path)
  have base : fs.key "evidence/" = joinPath above ++ "/" := by
    rw [← plain]
    exact key_append fs "evidence" "/"
  have nonempty : above ≠ [] := by
    rintro rfl
    have length := congrArg (fun text : String => text.toList.length) plain
    simp [AgentFs.key, joinPath] at length
  have whole : fs.key observed.relpath = joinPath (above ++ [name]) := by
    rw [text, key_append, base]
    unfold joinPath
    rw [List.map_append, String.intercalate_append_of_ne_nil (by simpa using nonempty) (by simp)]
    rfl
  refine ⟨above ++ [name], whole, ?_⟩
  rw [base, scanRoot_dir, keyPath_joinPath]
  refine ⟨List.prefix_append _ _, ?_, ?_⟩
  · intro other member
    rw [List.drop_left] at member
    cases member
  · intro other last
    rw [List.getLast?_concat] at last
    obtain rfl := Option.some.inj last
    rw [named]
    exact word_lasting words

end Keys

section Window

variable {σ : Type} [AgentStorage σ] [LawfulStorage σ] [Answering σ] {fs : AgentFs} {storage : σ} {history : List Observed}

theorem Indexed.get (indexed : Indexed fs history storage) {observed : Observed}
    (member : observed ∈ firstWrites history) :
    AgentStorage.get storage (fs.key observed.relpath) = .ok (some (.evidence observed.record)) :=
  Answering.get_present storage _ _ (indexed.held observed member)

/-- A complete tail has the records that were first written last. -/
theorem Indexed.tail_window (indexed : Indexed fs history storage) {tail : TailObject}
    (tracked : tail.entries.map (·.filename) = (firstWrites history).map Observed.filename) (n : Nat) :
    AgentFs.readKeysForTail Content.asEvidence (fs.key "evidence/") tail n storage =
      .ok ((lastWritten history n).map Observed.record) := by
  unfold AgentFs.readKeysForTail
  have taken : (tail.entries.take (min tail.entries.length n)).map (·.filename) =
      ((firstWrites history).take n).map Observed.filename := by
    rw [Nat.min_comm, ← List.take_eq_take_min, List.map_take, tracked, List.map_take]
  have sorted : (((firstWrites history).take n).map Observed.filename).insertionSort
      (fun first second => first.toList ≤ second.toList) = (lastWritten history n).map Observed.filename := by
    symm
    apply List.map_insertionSort
    exact fun _ _ _ _ => Iff.rfl
  have keys : ((lastWritten history n).map Observed.filename).map (fs.key "evidence/" ++ ·) =
      (lastWritten history n).map fun observed => fs.key observed.relpath := by
    rw [List.map_map]
    apply List.map_congr_left
    intro observed _
    rw [relpath_eq, key_append]
    rfl
  simp only [taken, sorted, keys]
  apply readKeys_held
  intro observed member
  exact indexed.get (List.mem_of_mem_take ((byName_perm _).mem_iff.mp member))

omit [Answering σ] in
/-- Nothing is listed but what is in the directory. -/
theorem listed_only [PlainListing σ] {known : Observed → Prop}
    (alone : ∀ key, keyPath (fs.key "evidence") <+: keyPath key → viewAt storage key ≠ none →
      (place key : Place σ) = place (fs.key EVIDENCE_TAIL_SUFFIX) ∨
        ∃ observed, known observed ∧ (place key : Place σ) = place (fs.key observed.relpath)) {page : ListPage}
    (found : AgentStorage.list storage (fs.key "evidence/") none usizeMax = .ok page) :
    ∀ key ∈ page.keys, key = fs.key EVIDENCE_TAIL_SUFFIX ∨ ∃ observed, known observed ∧ key = fs.key observed.relpath := by
  have base : fs.key "evidence/" = fs.key "evidence" ++ "/" := key_append fs "evidence" "/"
  intro key member
  obtain ⟨starts, there⟩ := list_ok storage _ none usizeMax page found key member
  obtain ⟨rest, stripped⟩ : ∃ rest, stripStart key (fs.key "evidence/") = some rest := ⟨_, if_pos starts⟩
  have below : keyPath (fs.key "evidence") <+: keyPath key := by
    rw [stripStart_eq stripped, base, keyPath_append]
    exact List.prefix_append _ _
  have spelled := PlainListing.spelled storage (fs.key "evidence") usizeMax page (base ▸ found) key member
  rcases alone key below (Option.isSome_iff_ne_none.mp there) with sidecar | ⟨observed, among, same⟩
  · left
    have plain : fs.key EVIDENCE_TAIL_SUFFIX = fs.key "evidence" ++ "/" ++ joinPath [tailName] := by
      rw [← base, ← key_append]
      rfl
    rw [plain] at sidecar ⊢
    exact spelled _ sidecar
  · right
    refine ⟨observed, among, ?_⟩
    obtain ⟨name, text, -⟩ := relpath_name observed
    have plain : fs.key observed.relpath = fs.key "evidence" ++ "/" ++ joinPath [name] := by
      rw [text, key_append, base]
      rfl
    rw [plain] at same ⊢
    exact spelled _ same

omit [Answering σ] in
theorem Indexed.only [PlainListing σ] (indexed : Indexed fs history storage) {page : ListPage}
    (found : AgentStorage.list storage (fs.key "evidence/") none usizeMax = .ok page) :
    ∀ key ∈ page.keys, key = fs.key EVIDENCE_TAIL_SUFFIX ∨ ∃ observed ∈ firstWrites history, key = fs.key observed.relpath :=
  listed_only indexed.alone found

omit [Answering σ] in
/-- A page of the directory is never full, unless there were that many calls. -/
theorem Indexed.fits [PlainListing σ] (indexed : Indexed fs history storage) (few : (firstWrites history).length + 1 < usizeMax)
    {page : ListPage} (found : AgentStorage.list storage (fs.key "evidence/") none usizeMax = .ok page) :
    page.keys.length < usizeMax := by
  have within : page.keys ⊆ fs.key EVIDENCE_TAIL_SUFFIX :: (firstWrites history).map fun observed => fs.key observed.relpath := by
    intro key member
    rcases indexed.only found key member with sidecar | ⟨observed, among, same⟩
    · exact List.mem_cons.mpr (.inl sidecar)
    · exact List.mem_cons_of_mem _ (List.mem_map.mpr ⟨observed, among, same.symm⟩)
  have fewer := (List.subperm_of_subset (list_nodup storage _ _ _ page found) within).length_le
  rw [List.length_cons, List.length_map] at fewer
  omega

omit [Answering σ] in
/-- The listing has the keys of what was first written, and the sidecar's. -/
theorem Indexed.listed [PlainListing σ] (indexed : Indexed fs history storage) {page : ListPage}
    (located : ∀ observed : Observed, Shown σ (fs.key "evidence/") (fs.key observed.relpath))
    (found : AgentStorage.list storage (fs.key "evidence/") none usizeMax = .ok page) (fits : page.keys.length < usizeMax) :
    ((page.keys.filter (endsWithText · ".json")).filter (!endsWithText · "/_tail.json")).Perm
      ((firstWrites history).map fun observed => fs.key observed.relpath) := by
  have only := indexed.only found
  have distinct : ((firstWrites history).map fun observed => fs.key observed.relpath).Nodup := by
    have paths := (firstWrites_spec history).1
    rw [show (fun observed => fs.key (Observed.relpath observed)) = fs.key ∘ Observed.relpath from rfl, ← List.map_map]
    apply paths.map
    intro first second same
    exact (String.append_right_inj _).mp same
  refine (List.perm_ext_iff_of_nodup (((list_nodup storage _ _ _ page found).filter _).filter _) distinct).mpr ?_
  intro key
  rw [List.mem_filter, List.mem_filter, List.mem_map]
  constructor
  · intro ⟨⟨member, _⟩, ordinary⟩
    rcases only key member with rfl | ⟨observed, among, same⟩
    · rw [tail_ends_tail] at ordinary
      cases ordinary
    · exact ⟨observed, among, same.symm⟩
  · intro ⟨observed, among, same⟩
    rw [← same, ends_json, not_ends_tail]
    refine ⟨⟨?_, rfl⟩, rfl⟩
    have starts : startsWithText (fs.key observed.relpath) (fs.key "evidence/") = true := by
      rw [relpath_eq, key_append]
      exact startsWithText_append _ _
    have there : (view storage (place (fs.key observed.relpath))).isSome = true :=
      Option.isSome_iff_exists.mpr ⟨_, indexed.held observed among⟩
    exact list_complete storage _ usizeMax page found fits _ starts there (located observed)

/-- The listing has the records of the greatest names. -/
theorem Indexed.list_window [PlainListing σ] (indexed : Indexed fs history storage)
    (located : ∀ observed : Observed, Shown σ (fs.key "evidence/") (fs.key observed.relpath))
    (fits : ∀ page, AgentStorage.list storage (fs.key "evidence/") none usizeMax = .ok page → page.keys.length < usizeMax)
    (n : Nat) : AgentFs.readRecentJson Content.asEvidence (fs.key "evidence/") n storage =
      .ok ((lastNamed history n).map Observed.record) := by
  have listing : ∃ page, AgentStorage.list storage (fs.key "evidence/") none usizeMax = .ok page := by
    cases sidecar : viewAt storage (fs.key EVIDENCE_TAIL_SUFFIX) with
    | none =>
      obtain ⟨page, found, -⟩ := listAll_page (indexed.untouched sidecar).2.2
      exact ⟨page, found⟩
    | some content =>
      have base : fs.key "evidence/" = fs.key "evidence" ++ "/" := key_append fs "evidence" "/"
      rw [base]
      apply Answering.list_present storage _ [tailName] usizeMax (by simp)
      rw [← base, ← key_append]
      exact Option.isSome_iff_exists.mpr ⟨content, sidecar⟩
  obtain ⟨page, found⟩ := listing
  have listed : AgentFs.listAll storage (fs.key "evidence/") = .ok page.keys := by
    unfold AgentFs.listAll AgentFs.stored
    rw [found]
    rfl
  have sorted := sorted_keys fs (indexed.listed located found (fits page found))
  unfold AgentFs.readRecentJson
  rw [listed]
  simp only [AgentFs.read, bind, Except.bind, sorted, List.length_map, ← List.map_drop]
  have length : (byName (firstWrites history)).length = (firstWrites history).length := (byName_perm _).length_eq
  rw [length]
  apply readKeys_held
  intro observed member
  exact indexed.get ((byName_perm _).mem_iff.mp (List.mem_of_mem_drop member))

/-- The latest records, in the order of their names, whichever way they are read. -/
structure Latest (fs : AgentFs) (storage : σ) (history : List Observed) (n : Nat) : Prop where
  answered : fs.listRecentEvidence n storage = .ok ((lastWritten history n).map Observed.record)
  listed : AgentFs.readRecentJson Content.asEvidence (fs.key "evidence/") n storage =
    .ok ((lastWritten history n).map Observed.record)

/-- The window on a history is served from the tail as long as that has room. -/
theorem Indexed.window [PlainListing σ] (indexed : Indexed fs history storage)
    (located : ∀ observed : Observed, Shown σ (fs.key "evidence/") (fs.key observed.relpath))
    (fits : ∀ page, AgentStorage.list storage (fs.key "evidence/") none usizeMax = .ok page → page.keys.length < usizeMax)
    (n : Nat) : fs.listRecentEvidence n storage =
      .ok ((if (firstWrites history).length < TAIL_K then lastWritten history n else lastNamed history n).map
        Observed.record) := by
  have list := indexed.list_window located fits n
  unfold AgentFs.listRecentEvidence AgentFs.readRecentWindowWithTail
  by_cases nothing : n = 0
  · subst nothing
    have none_written : lastWritten history 0 = [] := rfl
    have none_named : lastNamed history 0 = [] := by
      unfold lastNamed
      exact List.drop_of_length_le (by rw [(byName_perm _).length_eq]; omega)
    rw [if_pos rfl, none_written, none_named, ite_self]
    rfl
  · rw [if_neg nothing]
    cases sidecar : viewAt storage (fs.key EVIDENCE_TAIL_SUFFIX) with
    | none =>
      obtain ⟨empty, read, -⟩ := indexed.untouched sidecar
      rw [read]
      have named : lastNamed history n = [] := by
        unfold lastNamed
        rw [empty]
        exact List.drop_nil
      have written : lastWritten history n = [] := by
        unfold lastWritten
        rw [empty, List.take_nil]
        rfl
      rw [named] at list
      rw [named, written, ite_self]
      exact list
    | some content =>
      have read : AgentFs.get storage (fs.key EVIDENCE_TAIL_SUFFIX) = .ok (some content) := by
        unfold AgentFs.get AgentFs.stored
        rw [Answering.get_present storage _ content sidecar]
      obtain ⟨tail, formed⟩ := Option.isSome_iff_exists.mp (indexed.formed content sidecar)
      have tracked := indexed.tracked
      rw [tailAt, sidecar, Option.bind_some, formed, Option.getD_some] at tracked
      have length := congrArg List.length tracked
      rw [List.length_map, List.length_take, List.length_map] at length
      rw [read]
      simp only [AgentFs.read, bind, Except.bind, Option.bind_some, formed]
      by_cases room : (firstWrites history).length < TAIL_K
      · rw [if_pos (.inl (by omega)), if_pos room]
        rw [List.take_of_length_le (by rw [List.length_map]; omega)] at tracked
        exact indexed.tail_window tracked n
      · rw [if_neg (by simp; omega), if_neg room]
        exact list

end Window

section Windows

variable {σ : Type} [AgentStorage σ] [LawfulStorage σ] [Answering σ] [PlainListing σ] {fs : AgentFs} {storage : σ}

/-- After every history, the latest records are told either way exactly when the records of
the greatest names are those that were written last. -/
theorem recent_evidence_iff {final : σ} {history : List Observed} {paths : List String} (fresh : FreshEvidence fs storage)
    (located : ∀ observed : Observed, Shown σ (fs.key "evidence/") (fs.key observed.relpath))
    (ran : (recordings fs).run storage history = some (final, paths))
    (fits : ∀ page, AgentStorage.list final (fs.key "evidence/") none usizeMax = .ok page → page.keys.length < usizeMax)
    (n : Nat) :
    Latest fs final history n ↔ (lastNamed history n).map Observed.record = (lastWritten history n).map Observed.record := by
  have indexed := indexed_run fresh ran
  have list := indexed.list_window located fits n
  constructor
  · intro latest
    exact Except.ok.inj (list.symm.trans latest.listed)
  · intro same
    refine ⟨?_, list.trans (congrArg Except.ok same)⟩
    rw [indexed.window located fits n]
    split
    · rfl
    · rw [same]

end Windows

theorem freshEvidence_memory (fs : AgentFs) : FreshEvidence fs (⟨∅⟩ : MemoryStorage) :=
  ⟨unrecorded_memory fs, fun _ _ => rfl, rfl, rfl⟩

theorem firstWrites_reverse {history : List Observed} (distinct : (history.map Observed.relpath).Nodup) :
    firstWrites history = history.reverse := by
  induction history using List.reverseRecOn with
  | nil => rfl
  | append_singleton history observed ih =>
    rw [List.map_append, List.nodup_append] at distinct
    have earlier := ih distinct.1
    rw [firstWrites_snoc, earlier, if_neg, List.reverse_append]
    · rfl
    · intro known
      obtain ⟨other, member, same⟩ := List.any_eq_true.mp known
      exact distinct.2.2 _ (List.mem_map_of_mem (List.mem_reverse.mp member)) _ (by simp) (eq_of_beq same)

/-- An answer that is named after its number. -/
def counted (number : Nat) : Observed :=
  ⟨"t", .object [], .number (.posInt number), ⟨0⟩, toString (100 + number), ⟨0⟩⟩

private theorem counted_name {number : Nat} (small : number < 64) :
    ∃ rest, (counted number).filename = toString (100 + number) ++ rest := by
  have plain : ∀ number < 64, slug (toString (100 + number)) = toString (100 + number) ∧
      toString (100 + number) ≠ "" := by decide +kernel
  obtain ⟨same, some_name⟩ := plain number small
  have path : (counted number).relpath = "evidence/" ++ (toString (100 + number) ++
      ("-" ++ (String.ofList ((counted number).record.id.hex.toList.take 8) ++ ".json"))) := by
    unfold Observed.relpath evidenceRelpath
    change (if slug (toString (100 + number)) = "" then _ else "evidence/" ++ slug (toString (100 + number)) ++ "-" ++ _ ++ _) = _
    rw [same, if_neg some_name]
    simp only [String.append_assoc]
  rw [relpath_eq] at path
  exact ⟨_, (String.append_right_inj _).mp path⟩

private theorem lt_append {first second : List Char} (less : first < second) (same : first.length = second.length)
    (rest more : List Char) : first ++ rest < second ++ more := by
  induction less with
  | nil => cases same
  | rel less => exact List.Lex.rel less
  | cons _ ih => exact List.Lex.cons (ih (Nat.succ.inj same))

private theorem code_lt {first second : Nat} (less : first < second) (small : second < 64) :
    (toString (100 + first)).toList < (toString (100 + second)).toList := by
  have next : ∀ number < 63, (toString (100 + number)).toList < (toString (100 + (number + 1))).toList := by decide +kernel
  induction second, less using Nat.le_induction with
  | base => exact next first (by omega)
  | succ second _ ih => exact List.lt_trans (ih (by omega)) (next second (by omega))

private theorem counted_lt {first second : Nat} (less : first < second) (small : second < 64) :
    (counted first).filename.toList < (counted second).filename.toList := by
  have long : ∀ number < 64, (toString (100 + number)).toList.length = 3 := by decide +kernel
  obtain ⟨rest, named⟩ := counted_name (Nat.lt_trans less small)
  obtain ⟨rest', named'⟩ := counted_name small
  rw [named, named', String.toList_append, String.toList_append]
  exact lt_append (code_lt less small) ((long _ (Nat.lt_trans less small)).trans (long _ small).symm) _ _

private theorem counted_apart {first second : Nat} (here : first < 64) (there : second < 64)
    (same : (counted first).relpath = (counted second).relpath) : first = second := by
  have names : (counted first).filename.toList = (counted second).filename.toList := by
    rw [relpath_eq, relpath_eq (counted second)] at same
    exact congrArg String.toList ((String.append_right_inj _).mp same)
  rcases Nat.lt_trichotomy first second with less | alike | more
  · have before := counted_lt less there
    rw [names] at before
    exact (List.lt_irrefl _ before).elim
  · exact alike
  · have before := counted_lt more here
    rw [names] at before
    exact (List.lt_irrefl _ before).elim

private theorem firstWrites_counted {numbers : List Nat} (distinct : numbers.Nodup) (small : ∀ number ∈ numbers, number < 64) :
    firstWrites (numbers.map counted) = numbers.reverse.map counted := by
  have paths : ((numbers.map counted).map Observed.relpath).Nodup := by
    rw [List.map_map]
    apply List.Nodup.map_on _ distinct
    intro first here second there same
    rw [Function.comp_apply, Function.comp_apply] at same
    exact counted_apart (small first here) (small second there) same
  rw [firstWrites_reverse paths, List.map_reverse]

private theorem records_counted {numbers : List Nat} (distinct : numbers.Nodup) :
    ((numbers.map counted).map Observed.record).Nodup := by
  rw [List.map_map]
  apply List.Nodup.map_on _ distinct
  intro first _ second _ same
  have results : Json.number (.posInt first) = .number (.posInt second) := congrArg EvidenceRecord.result same
  cases results
  rfl

theorem recent_evidence_iff_two_answers :
    ∃ final paths, (recordings ⟨""⟩).run (⟨∅⟩ : MemoryStorage) ([0, 1].map counted) = some (final, paths) ∧
      Latest ⟨""⟩ final ([0, 1].map counted) 1 := by
  have written : firstWrites ([0, 1].map counted) = [1, 0].map counted := firstWrites_counted (by decide) (by decide)
  obtain ⟨final, paths, ran⟩ := memory_recordings ⟨""⟩ ⟨∅⟩ ([0, 1].map counted)
  have indexed := indexed_run (freshEvidence_memory _) ran
  refine ⟨final, paths, ran, (recent_evidence_iff (freshEvidence_memory _) (fun _ => trivial) ran
    (fun page found => indexed.fits (by rw [written]; decide) found) 1).mpr ?_⟩
  have apart : ((firstWrites ([0, 1].map counted)).map Observed.record).Nodup := by
    rw [written]
    exact records_counted (by decide)
  refine (records_eq_iff apart).mpr ?_
  rw [written]
  intro recent late older early
  rw [List.mem_singleton.mp late, List.mem_singleton.mp early]
  exact counted_lt (by decide) (by decide)

/-- At the capacity of the tail the one record asked for is of the greatest name, not the latest. -/
theorem greatest_name_told :
    ¬ ∀ (fs : AgentFs) (storage final : MemoryStorage) (history : List Observed) (paths : List String),
        FreshEvidence fs storage → (recordings fs).run storage history = some (final, paths) →
          ∀ n, Latest fs final history n := by
  intro told
  have written := @firstWrites_counted (List.range 64).reverse (by decide) (by decide)
  have records := @records_counted (List.range 64) (by decide)
  rw [List.reverse_reverse] at written
  generalize (List.range 64).reverse.map counted = history at written
  obtain ⟨final, paths, ran⟩ := memory_recordings ⟨""⟩ ⟨∅⟩ history
  have indexed := indexed_run (freshEvidence_memory _) ran
  have length : (firstWrites history).length = 64 := by rw [written, List.length_map, List.length_range]
  have window := indexed.window (fun _ => trivial) (fun page found => indexed.fits (by rw [length]; decide) found) 1
  rw [if_neg (by rw [length]; decide), (told ⟨""⟩ ⟨∅⟩ final history paths (freshEvidence_memory _) ran 1).answered] at window
  rw [← written] at records
  have greater := (records_eq_iff records).mp (Except.ok.inj window).symm
  rw [written, ← List.map_take, ← List.map_drop] at greater
  have late := greater (counted 0) (List.mem_map_of_mem (by decide)) (counted 63) (List.mem_map_of_mem (by decide))
  exact List.lt_asymm late (counted_lt (by decide) (by decide))

end Coral.Proofs

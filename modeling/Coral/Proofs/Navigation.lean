import Coral.Proofs.BackendTransparency

/-! What an agent is told of its own files. In any state that a graph comes to, on the disk as
in memory, its listings and searches show those files that its reads show, and no others. -/

namespace Coral.Proofs
open Coral.Library Coral.Temporal LawfulStorage

/-- The first line of the text with the query in it. -/
def firstMatch (query text : String) : Option String := ((lines text).find? (containsText · query)).map trim

section Keys

variable {graphId : GraphId} {agentId : AgentId} {dir below : List Name}

theorem key_dir (fs : AgentFs) (dir : List Name) (proper : below ≠ []) :
    fs.key (joinPath (dir ++ below)) = fs.key (dirText dir) ++ joinPath below := by
  unfold dirText
  rw [← key_append]
  by_cases root : dir = []
  · rw [if_pos root, root, List.nil_append, String.empty_append]
  · rw [if_neg root, joinPath_append root proper]

/-- What `list_dir` has for a key. -/
def listedUnder (start key : String) : Option String :=
  match stripStart key start with
  | none | some "" | some "_tail.json" => none
  | some rest =>
    match segments rest with
    | subdir :: _ :: _ => some (subdir ++ "/")
    | _ => some rest

theorem listDir_listed {σ : Type} [AgentStorage σ] {fs : AgentFs} {storage : σ} {path start : String} {keys : List String}
    (scope : fs.dirPrefix path = .ok start) (listed : AgentFs.listAll storage start = .ok keys) :
    fs.listDir storage path = .ok ((keys.filterMap (listedUnder start)).dedup.insertionSort
      fun first second => first.toList ≤ second.toList) := by
  unfold AgentFs.listDir
  rw [scope]
  change (AgentFs.listAll storage start >>= _) = _
  rw [listed]
  rfl

theorem listedUnder_dir (start : String) (proper : below ≠ []) :
    listedUnder start (start ++ joinPath below) = if below = [tailName] then none else some (entry below) := by
  have named : joinPath below ≠ "" := by
    intro empty
    have parts := segments_joinPath proper
    rw [empty] at parts
    obtain ⟨name, -, blank⟩ := List.mem_map.mp (parts ▸ List.mem_singleton_self "" : "" ∈ below.map (·.text))
    exact name.plain.1 blank
  unfold listedUnder
  rw [stripStart_append]
  split
  · rename_i impossible
    cases impossible
  · rename_i empty
    exact (named (Option.some.inj empty)).elim
  · rename_i sidecar
    rw [if_pos]
    exact joinPath_injective (Option.some.inj sidecar)
  · rename_i rest _ other same
    obtain rfl := Option.some.inj same
    rw [if_neg (fun sidecar => other (by rw [sidecar]; rfl)), segments_joinPath proper]
    match below, proper with
    | [name], _ => simp [entry, joinPath]
    | directory :: _ :: _, _ => rfl

theorem sidecar_iff (proper : below ≠ []) :
    endsWithText ((AgentFs.openForAgent graphId agentId).key (joinPath (dir ++ below))) "/_tail.json" = true ↔
      below.getLast? = some tailName := by
  rw [key_joinPath (List.append_ne_nil_of_right_ne_nil dir proper)]
  have last : (agentRoot graphId agentId ++ (dir ++ below)).getLast? = below.getLast? := by
    rw [← List.append_assoc, List.getLast?_append_of_ne_nil _ proper]
  constructor
  · intro ends
    obtain ⟨front, whole⟩ := List.isSuffixOf_iff_suffix.mp ends
    have split : joinPath (agentRoot graphId agentId ++ (dir ++ below)) = String.ofList front ++ "/" ++ "_tail.json" := by
      apply String.toList_inj.mp
      rw [← whole]
      simp
    have paths := congrArg keyPath split
    rw [keyPath_joinPath, keyPath_append, show keyPath "_tail.json" = [tailName] from by decide] at paths
    rw [← last, paths, List.getLast?_concat]
  · intro sidecar
    rw [← last] at sidecar
    obtain ⟨front, whole⟩ := List.getLast?_eq_some_iff.mp sidecar
    have proper : front ≠ [] := by
      rintro rfl
      have lengths := congrArg List.length whole
      simp [agentRoot] at lengths
    rw [whole, joinPath_append proper (List.cons_ne_nil _ _)]
    refine List.isSuffixOf_iff_suffix.mpr ⟨(joinPath front).toList, ?_⟩
    simp [joinPath, tailName]

end Keys

section Memory

variable {notes : List Name → Prop} {notable : Notable notes} {memory : MemoryStorage} {graphId : GraphId}
  {agentId : AgentId} {path : String} {dir : List Name}

/-- The file of an agent. -/
def fileAt (memory : MemoryStorage) (graphId : GraphId) (agentId : AgentId) (path : List Name) : Option Content :=
  memory.inner.lookup ((AgentFs.openForAgent graphId agentId).key (joinPath path))

/-- A listing has the files below the directory. -/
theorem listed_dir (filed : ∀ key ∈ memory.inner.keys, (graphKeys notable).keys key)
    (few : memory.inner.keys.length < usizeMax) (unfiled : ¬ Filed notes dir) :
    ∃ keys, AgentFs.listAll memory ((AgentFs.openForAgent graphId agentId).key (dirText dir)) = .ok keys ∧ keys.Nodup ∧
      ∀ key, key ∈ keys ↔ ∃ below, below ≠ [] ∧
        key = (AgentFs.openForAgent graphId agentId).key (joinPath (dir ++ below)) ∧
        (fileAt memory graphId agentId (dir ++ below)).isSome = true := by
  have distinct : (memory.inner.keys.filter fun key =>
      startsWithText key ((AgentFs.openForAgent graphId agentId).key (dirText dir))).Nodup := memory.inner.nodupKeys.filter _
  refine ⟨_, rfl, ListPage.nodup_of distinct none usizeMax, fun key => ?_⟩
  have short : (ListPage.of (memory.inner.keys.filter fun key =>
      startsWithText key ((AgentFs.openForAgent graphId agentId).key (dirText dir))) none usizeMax).keys.length < usizeMax := by
    unfold ListPage.of
    simp only [List.length_take, List.length_insertionSort]
    have fewer := List.length_filter_le (fun key =>
      startsWithText key ((AgentFs.openForAgent graphId agentId).key (dirText dir))) memory.inner.keys
    omega
  constructor
  · intro member
    obtain ⟨stored, matching⟩ := List.mem_filter.mp (ListPage.mem_keys_of member)
    obtain ⟨otherGraph, otherAgent, whole, file, rfl⟩ := filed key stored
    have starts : startsWithText (joinPath (agentRoot otherGraph otherAgent ++ whole))
        (agentScope graphId agentId dir).text = true := by
      rw [agentScope_text]
      exact matching
    have above := dir_above starts
    rw [keyPath_joinPath] at above
    obtain ⟨rfl, rfl, below, rfl⟩ := agentRoot_inj above
    have proper : below ≠ [] := by
      rintro rfl
      exact unfiled (by rwa [List.append_nil] at file)
    refine ⟨below, proper, (key_joinPath file.nonempty).symm, ?_⟩
    unfold fileAt
    rw [key_joinPath file.nonempty]
    exact AList.lookup_isSome.mpr (AList.mem_keys.mpr stored)
  · rintro ⟨below, proper, rfl, there⟩
    refine ListPage.mem_of_short short (List.mem_filter.mpr ⟨AList.mem_keys.mp (AList.lookup_isSome.mp there), ?_⟩)
    rw [key_dir _ dir proper]
    exact startsWithText_append _ _

/-- What is in a directory: its files, and a mark for each directory in it. -/
theorem listDir_memory (filed : ∀ key ∈ memory.inner.keys, (graphKeys notable).keys key)
    (few : memory.inner.keys.length < usizeMax) (unfiled : ¬ Filed notes dir)
    (cleaned : AgentFs.cleanRelpath path = .ok (joinPath dir)) :
    ∃ names, (AgentFs.openForAgent graphId agentId).listDir memory path = .ok names ∧
      names.Pairwise (fun first second => first.toList < second.toList) ∧
      ∀ name, name ∈ names ↔ ∃ below, below ≠ [] ∧ below ≠ [tailName] ∧ name = entry below ∧
        (fileAt memory graphId agentId (dir ++ below)).isSome = true := by
  obtain ⟨keys, listed, -, member_iff⟩ := @listed_dir notes notable memory graphId agentId dir filed few unfiled
  refine ⟨_, listDir_listed (dirPrefix_dir cleaned) listed, ?_, fun name => ?_⟩
  · have apart := (List.perm_insertionSort (fun first second : String => first.toList ≤ second.toList) _).nodup_iff.mpr
      (List.nodup_dedup (keys.filterMap (listedUnder ((AgentFs.openForAgent graphId agentId).key (dirText dir)))))
    refine ((pairwise_sorted _).and apart).imp fun {first second} both => ?_
    exact lt_of_le_of_ne both.1 fun same => both.2 (String.toList_inj.mp same)
  · rw [List.mem_insertionSort, List.mem_dedup, List.mem_filterMap]
    constructor
    · rintro ⟨key, member, named⟩
      obtain ⟨below, proper, rfl, there⟩ := (member_iff key).mp member
      rw [key_dir _ dir proper, listedUnder_dir _ proper] at named
      split at named
      · cases named
      · rename_i plain
        exact ⟨below, proper, plain, (Option.some.inj named).symm, there⟩
    · rintro ⟨below, proper, plain, rfl, there⟩
      refine ⟨_, (member_iff _).mpr ⟨below, proper, rfl, there⟩, ?_⟩
      rw [key_dir _ dir proper, listedUnder_dir _ proper, if_neg plain]

theorem getMany_memory (keys : List String) : AgentStorage.getMany memory keys = .ok (keys.map memory.inner.lookup) := by
  unfold AgentStorage.getMany
  induction keys with
  | nil => rfl
  | cons key keys ih =>
    rw [List.mapM_cons, ih]
    rfl

theorem zip_lookup {α β : Type} (find : α → β) (keys : List α) :
    keys.zip (keys.map find) = keys.map fun key => (key, find key) := by
  induction keys with
  | nil => rfl
  | cons key keys ih =>
    rw [List.map_cons, List.zip_cons_cons, ih]
    rfl

/-- The first match of each file in a directory. -/
theorem search_memory (render : Content → String) (query : String)
    (filed : ∀ key ∈ memory.inner.keys, (graphKeys notable).keys key)
    (few : memory.inner.keys.length < usizeMax) (unfiled : ¬ Filed notes dir)
    (cleaned : AgentFs.cleanRelpath path = .ok (joinPath dir)) :
    ∃ hits, (AgentFs.openForAgent graphId agentId).search render memory query (some path) = .ok hits ∧
      ∀ file line, (file, line) ∈ hits ↔ ∃ below content, below ≠ [] ∧ below.getLast? ≠ some tailName ∧
        file = joinPath (dir ++ below) ∧ fileAt memory graphId agentId (dir ++ below) = some content ∧
        firstMatch query (render content) = some line := by
  obtain ⟨keys, listed, -, member_iff⟩ := @listed_dir notes notable memory graphId agentId dir filed few unfiled
  have shown : (AgentFs.openForAgent graphId agentId).search render memory query (some path) =
      .ok (((AgentFs.openForAgent graphId agentId).hits render query (keys.filter fun key => !endsWithText key "/_tail.json")
        ((keys.filter fun key => !endsWithText key "/_tail.json").map memory.inner.lookup)).insertionSort fun first second =>
          first.1.toList < second.1.toList ∨ first.1 = second.1 ∧ first.2.toList ≤ second.2.toList) := by
    have scope : (AgentFs.openForAgent graphId agentId).searchPrefix (some path) =
        .ok ((AgentFs.openForAgent graphId agentId).key (dirText dir)) := dirPrefix_dir cleaned
    unfold AgentFs.search
    rw [scope]
    simp only [bind, Except.bind]
    rw [listed]
    simp only
    rw [getMany_memory]
    rfl
  refine ⟨_, shown, fun file line => ?_⟩
  have named : ∀ below, below ≠ [] → stripStart ((AgentFs.openForAgent graphId agentId).key (joinPath (dir ++ below)))
      (AgentFs.openForAgent graphId agentId).storagePrefix = some (joinPath (dir ++ below)) := by
    intro below _
    unfold AgentFs.key
    exact stripStart_append _ _
  rw [List.mem_insertionSort]
  unfold AgentFs.hits
  rw [zip_lookup, List.filterMap_map, List.mem_filterMap]
  constructor
  · rintro ⟨key, member, found⟩
    obtain ⟨among, plain⟩ := List.mem_filter.mp member
    obtain ⟨below, proper, rfl, -⟩ := (member_iff key).mp among
    obtain ⟨content, held, matched⟩ := Option.bind_eq_some_iff.mp found
    obtain ⟨first, hit, same⟩ := Option.map_eq_some_iff.mp matched
    rw [named below proper] at same
    cases same
    refine ⟨below, content, proper, fun sidecar => ?_, rfl, held, hit⟩
    rw [sidecar_iff proper |>.mpr sidecar] at plain
    cases plain
  · rintro ⟨below, content, proper, plain, rfl, held, hit⟩
    refine ⟨(AgentFs.openForAgent graphId agentId).key (joinPath (dir ++ below)), List.mem_filter.mpr ⟨?_, ?_⟩, ?_⟩
    · exact (member_iff _).mpr ⟨below, proper, rfl, by rw [held]; rfl⟩
    · rw [Bool.not_eq_true', Bool.eq_false_iff]
      exact fun sidecar => plain ((sidecar_iff proper).mp sidecar)
    · refine Option.bind_eq_some_iff.mpr ⟨content, held, Option.map_eq_some_iff.mpr ⟨line, hit, ?_⟩⟩
      rw [named below proper]
      rfl

end Memory

section Reads

variable {notes : List Name → Prop} {notable : Notable notes} {pid : UInt32} {disk : LocalDisk} {memory : MemoryStorage}
  {graphId : GraphId} {agentId : AgentId} {path : List Name} {text : String}

theorem cleanRelpath_joinPath (proper : path ≠ []) : AgentFs.cleanRelpath (joinPath path) = .ok (joinPath path) := by
  unfold AgentFs.cleanRelpath
  rw [plainParts_joinPath proper]

/-- A read shows the file that the store answers with. -/
theorem readFile_iff {σ : Type} [AgentStorage σ] {fs : AgentFs} {storage : σ} (render : Content → String) (proper : path ≠ []) :
    fs.readFile render storage (joinPath path) = .ok text ↔
      ∃ content, AgentStorage.get storage (fs.key (joinPath path)) = .ok (some content) ∧ render content = text := by
  unfold AgentFs.readFile
  rw [cleanRelpath_joinPath proper]
  simp only [bind, Except.bind, AgentFs.get]
  cases AgentStorage.get storage (fs.key (joinPath path)) with
  | error error => simp [AgentFs.stored]
  | ok found => cases found <;> simp [AgentFs.stored, pure, Except.pure]

theorem filed_of_key {key : String} (used : (graphKeys notable).keys key)
    (here : keyPath key = agentRoot graphId agentId ++ path) : Filed notes path := by
  obtain ⟨otherGraph, otherAgent, other, filed, rfl⟩ := used
  rw [keyPath_joinPath] at here
  obtain ⟨rfl, rfl, -⟩ := agentRoot_inj ⟨[], (List.append_nil _).trans here⟩
  rwa [← List.append_cancel_left here]

/-- The disk has the files that are in memory. -/
theorem disk_file_iff (reflects : Reflects (graphKeys notable) pid (fun _ _ => none) disk memory) {content : Content} :
    AgentStorage.get disk ((AgentFs.openForAgent graphId agentId).key (joinPath path)) = .ok (some content) ↔
      fileAt memory graphId agentId path = some content := by
  have here : keyPath ((AgentFs.openForAgent graphId agentId).key (joinPath path)) = agentRoot graphId agentId ++ path := by
    rw [keyPath_agent, keyPath_joinPath]
    rfl
  have mirrors := reflects.mirrors
  rw [show AgentStorage.get disk _ = AgentStorage.get disk.store _ from get_taken fun tree => by rw [reflects.system]]
  by_cases filed : Filed notes path
  · rw [mirrors.get (graphKeys_file notable graphId agentId filed)]
    change Except.ok (fileAt memory graphId agentId path) = _ ↔ _
    rw [Except.ok.injEq]
  · constructor
    · intro got
      have there : some content = disk.tree.read (keyPath _) := get_ok _ _ _ got
      rw [here] at there
      have file := FileTree.isSome_read.mp (show (disk.tree.read _).isSome = true by rw [← there]; rfl)
      exact (filed (filed_of_key (mirrors.files _ file) (keyPath_joinPath _))).elim
    · intro found
      have stored := AList.mem_keys.mp (AList.lookup_isSome.mp (show (memory.inner.lookup _).isSome = true by
        rw [show memory.inner.lookup _ = some content from found]; rfl))
      exact (filed (filed_of_key (mirrors.stored _ stored) here)).elim

/-- There are no more keys in memory than files on the disk. -/
theorem keys_le_files (mirrors : Mirrors (graphKeys notable) disk.store memory) :
    memory.inner.keys.length ≤ disk.tree.files.length := by
  have apart : (memory.inner.keys.map keyPath).Nodup := by
    refine List.Nodup.map_on ?_ memory.inner.nodupKeys
    intro first member second member' same
    obtain ⟨path, -, rfl⟩ := (graphKeys notable).plain _ (mirrors.stored _ member)
    obtain ⟨other, -, rfl⟩ := (graphKeys notable).plain _ (mirrors.stored _ member')
    rw [keyPath_joinPath, keyPath_joinPath] at same
    rw [same]
  have within : memory.inner.keys.map keyPath ⊆ disk.tree.files := by
    intro path member
    obtain ⟨key, stored, rfl⟩ := List.mem_map.mp member
    have read : disk.tree.read (keyPath key) = _ := mirrors.same key (mirrors.stored key stored)
    rw [FileTree.mem_files, ← FileTree.isSome_read, read]
    exact AList.lookup_isSome.mpr (AList.mem_keys.mpr stored)
  have shorter := (apart.subperm within).length_le
  rwa [List.length_map] at shorter

end Reads

/-- A directory of an agent is listed and searched for the very files that are read. -/
structure Navigable {σ : Type} [AgentStorage σ] (render : Content → String) (fs : AgentFs) (storage : σ) (path : String)
    (dir : List Name) : Prop where
  listed : ∃ names, fs.listDir storage path = .ok names ∧
    names.Pairwise (fun first second => first.toList < second.toList) ∧
    ∀ name, name ∈ names ↔ ∃ below text, below ≠ [] ∧ below ≠ [tailName] ∧ name = entry below ∧
      fs.readFile render storage (joinPath (dir ++ below)) = .ok text
  searched : ∀ query, ∃ hits, fs.search render storage query (some path) = .ok hits ∧
    ∀ file line, (file, line) ∈ hits ↔ ∃ below text, below ≠ [] ∧ below.getLast? ≠ some tailName ∧
      file = joinPath (dir ++ below) ∧ fs.readFile render storage file = .ok text ∧ firstMatch query text = some line

section Navigable

variable {σ : Type} [AgentStorage σ] {storage : σ} {notes : List Name → Prop} {notable : Notable notes}
  {memory : MemoryStorage} {graphId : GraphId} {agentId : AgentId} {path : String} {dir : List Name}

/-- A store that lists, searches and holds what the memory does is navigated as the memory is. -/
theorem navigable_of_memory (render : Content → String)
    (filed : ∀ key ∈ memory.inner.keys, (graphKeys notable).keys key) (few : memory.inner.keys.length < usizeMax)
    (unfiled : ¬ Filed notes dir) (cleaned : AgentFs.cleanRelpath path = .ok (joinPath dir))
    (list : (AgentFs.openForAgent graphId agentId).listDir storage path = (AgentFs.openForAgent graphId agentId).listDir memory path)
    (search : ∀ query, (AgentFs.openForAgent graphId agentId).search render storage query (some path) =
      (AgentFs.openForAgent graphId agentId).search render memory query (some path))
    (get : ∀ path content, AgentStorage.get storage ((AgentFs.openForAgent graphId agentId).key (joinPath path)) =
      .ok (some content) ↔ fileAt memory graphId agentId path = some content) :
    Navigable render (.openForAgent graphId agentId) storage path dir where
  listed := by
    obtain ⟨names, listed, ascending, member_iff⟩ :=
      @listDir_memory notes notable memory graphId agentId path dir filed few unfiled cleaned
    refine ⟨names, list.trans listed, ascending, fun name => (member_iff name).trans ?_⟩
    constructor
    · rintro ⟨below, proper, plain, named, there⟩
      obtain ⟨content, held⟩ := Option.isSome_iff_exists.mp there
      exact ⟨below, render content, proper, plain, named,
        (readFile_iff render (List.append_ne_nil_of_right_ne_nil dir proper)).mpr ⟨content, (get _ _).mpr held, rfl⟩⟩
    · rintro ⟨below, text, proper, plain, named, read⟩
      obtain ⟨content, held, -⟩ := (readFile_iff render (List.append_ne_nil_of_right_ne_nil dir proper)).mp read
      exact ⟨below, proper, plain, named, by rw [(get _ _).mp held]; rfl⟩
  searched query := by
    obtain ⟨hits, found, member_iff⟩ :=
      @search_memory notes notable memory graphId agentId path dir render query filed few unfiled cleaned
    refine ⟨hits, (search query).trans found, fun file line => (member_iff file line).trans ?_⟩
    constructor
    · rintro ⟨below, content, proper, plain, rfl, held, matched⟩
      exact ⟨below, render content, proper, plain, rfl,
        (readFile_iff render (List.append_ne_nil_of_right_ne_nil dir proper)).mpr ⟨content, (get _ _).mpr held, rfl⟩, matched⟩
    · rintro ⟨below, text, proper, plain, rfl, read, matched⟩
      obtain ⟨content, held, rfl⟩ := (readFile_iff render (List.append_ne_nil_of_right_ne_nil dir proper)).mp read
      exact ⟨below, content, proper, plain, rfl, (get _ _).mp held, matched⟩

end Navigable

/-- Whatever a graph's agents have done on an empty disk, each directory of an agent is listed and
searched for the very files that the agent can read, on the disk as in memory. -/
theorem navigation_agrees {notes : List Name → Prop} (notable : Notable notes) (pid : UInt32) (codec : Codec)
    (render : Content → String) (graphId : GraphId) (db : StructuralDb) {calls : List AgentCall}
    (tidy : ∀ call ∈ calls, call.Tidy notes) :
    ∃ answers disk memory rows,
      (agentCalls codec render graphId).run (emptyDisk pid, db) calls = some ((disk, rows), answers) ∧
      (agentCalls codec render graphId).run ((⟨∅⟩ : MemoryStorage), db) calls = some ((memory, rows), answers) ∧
      (disk.tree.files.length < usizeMax → ∀ agentId path dir, AgentFs.cleanRelpath path = .ok (joinPath dir) →
        ¬ Filed notes dir → Navigable render (.openForAgent graphId agentId) disk path dir ∧
          Navigable render (.openForAgent graphId agentId) memory path dir) := by
  have lockstep := graphKeys_lockstep notable pid
  obtain ⟨answers, disk, memory, rows, ran, ran', reflects⟩ := @Lockstep.run _ _ _ _ _ _ _ _ codec graphId lockstep render
    _ _ db _ (fun call member => (tidy call member).within notable graphId) (graphKeys_empty notable pid)
  refine ⟨answers, disk, memory, rows, ran, ran', fun few agentId path dir cleaned unfiled => ?_⟩
  have bound : memory.inner.keys.length < usizeMax := Nat.lt_of_le_of_lt (keys_le_files reflects.mirrors) few
  have scope : ∀ start, (AgentFs.openForAgent graphId agentId).dirPrefix path = .ok start →
      (graphKeys notable).starts start := by
    refine fun start => graphKeys_dirPrefix notable graphId agentId fun rest cleaned' => ?_
    obtain rfl := Except.ok.inj (cleaned.symm.trans cleaned')
    rwa [keyPath_joinPath]
  constructor
  · refine navigable_of_memory render reflects.mirrors.stored bound unfiled cleaned ?_ (fun query => ?_) fun _ _ =>
      disk_file_iff reflects
    · exact lockstep.listDir reflects scope
    · exact lockstep.search reflects render query scope
  · refine navigable_of_memory render reflects.mirrors.stored bound unfiled cleaned rfl (fun _ => rfl) fun path content => ?_
    change Except.ok (fileAt memory graphId agentId path) = _ ↔ _
    rw [Except.ok.injEq]

section Examples

private def lone (path : List Name) : Prop := path = [tailName] ∨ path = [statusName]

private theorem lone_notable : Notable lone where
  sidecar := .inl rfl
  status := .inr rfl
  apart first second noted noted' above := by
    rcases noted with rfl | rfl <;> rcases noted' with rfl | rfl <;>
      first | rfl | exact absurd (List.cons_prefix_cons.mp above).1 (by decide)
  beside first second noted noted' pid counter :=
    no_temporary (by rcases noted' with rfl | rfl <;> decide) (by rcases noted with rfl | rfl <;> simp)
  shown path noted := by
    rcases noted with rfl | rfl <;> decide

private def loner : AgentId := ⟨⟨1⟩⟩

private def loneNote : List AgentCall :=
  [.perform ⟨loner, .applyFsOps placeholderMandate [.writeFile "notes/STATUS.md" "All is well."], fun _ => ⟨0⟩, 9, 0⟩]

private def loneText : Content → String
  | .text body => body
  | _ => ""

/-- A note that was written is listed and found, on the disk as in memory. -/
theorem navigation_agrees_note : ∃ answers disk rows,
    (agentCalls (listedCodec [] []) loneText ⟨⟨0⟩⟩).run (emptyDisk 7, (⟨[], [], [], [], ∅, []⟩ : StructuralDb))
        loneNote = some ((disk, rows), answers) ∧
      (∃ names, (AgentFs.openForAgent ⟨⟨0⟩⟩ loner).listDir disk "notes" = .ok names ∧ "STATUS.md" ∈ names) ∧
      ∃ hits, (AgentFs.openForAgent ⟨⟨0⟩⟩ loner).search loneText disk "well" (some "notes") = .ok hits ∧
        ("notes/STATUS.md", "All is well.") ∈ hits := by
  have tidy : ∀ call ∈ loneNote, call.Tidy lone := by
    unfold loneNote
    rw [List.forall_mem_singleton]
    intro op member path named
    rw [List.mem_singleton.mp member] at named
    rw [show notePath (FsOp.writeFile "notes/STATUS.md" "All is well.").path = some [statusName] from by decide] at named
    exact .inr (Option.some.inj named).symm
  obtain ⟨answers, disk, memory, rows, ran, ran', agrees⟩ := navigation_agrees lone_notable 7 (listedCodec [] [])
    loneText ⟨⟨0⟩⟩ ⟨[], [], [], [], ∅, []⟩ tidy
  have held : ((agentCalls (listedCodec [] []) loneText ⟨⟨0⟩⟩).run
      (emptyDisk 7, (⟨[], [], [], [], ∅, []⟩ : StructuralDb)) loneNote).map
        (fun after => (after.1.1.tree.files.length,
          ((AgentFs.openForAgent ⟨⟨0⟩⟩ loner).readFile loneText after.1.1 "notes/STATUS.md").toOption)) =
      some (3, some "All is well.") := by
    decide +kernel
  rw [ran, Option.map_some] at held
  obtain ⟨count, shown⟩ := Prod.mk.inj (Option.some.inj held)
  have unfiled : ¬ Filed lone [notesName] := unfiled_dir lone_notable (by decide)
  have read : (AgentFs.openForAgent ⟨⟨0⟩⟩ loner).readFile loneText disk (joinPath ([notesName] ++ [statusName])) =
      .ok "All is well." := by
    rw [show joinPath ([notesName] ++ [statusName]) = "notes/STATUS.md" from by decide]
    cases outcome : (AgentFs.openForAgent ⟨⟨0⟩⟩ loner).readFile loneText disk "notes/STATUS.md" with
    | error error =>
      rw [outcome] at shown
      cases shown
    | ok text =>
      rw [outcome] at shown
      exact congrArg Except.ok (Option.some.inj shown)
  obtain ⟨navigable, -⟩ := agrees (by rw [count]; decide) loner "notes" [notesName] (by decide) unfiled
  refine ⟨answers, disk, rows, ran, ?_, ?_⟩
  · obtain ⟨names, listed, -, member_iff⟩ := navigable.listed
    exact ⟨names, listed, (member_iff _).mpr ⟨[statusName], _, by decide, by decide, by decide, read⟩⟩
  · obtain ⟨hits, found, member_iff⟩ := navigable.searched "well"
    exact ⟨hits, found, (member_iff _ _).mpr ⟨[statusName], _, by decide, by decide, by decide, read, by decide +kernel⟩⟩

end Examples

end Coral.Proofs

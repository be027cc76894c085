import Coral.Proofs.HealthAgreement
import Mathlib.Data.Finset.Card

/-! What is kept of the incidents an agent has recovered from. The archive is named by whole
seconds, so the later one of two incidents of one second takes the place of the earlier. -/

namespace Coral.HealthFiles.Proofs
open Coral.Library Coral.HealthFiles FileScript

variable {formats : Formats}

inductive Change where
  | unhealthy (incident : HealthIncident)
  | success (now : DateTime)

def Change.records : Change → List HealthRecord
  | .unhealthy incident => [unhealthyRecord incident]
  | .success now => [healthyRecord now]

/-- The call, without a fault. -/
def perform (formats : Formats) (state : Disk × HealthTracker) : Change → Disk × HealthTracker
  | .unhealthy incident =>
    let (answer, disk) := (transitionToUnhealthy formats state.2 incident).run state.1
    (disk, answer.2)
  | .success now =>
    let (answer, disk) := (markTickSuccess formats state.2 now).run state.1
    (disk, answer.2)

def Change.call : Change → Call
  | .unhealthy incident => .transitionToUnhealthy incident
  | .success now => .markTickSuccess now

/-- What a script does, a process does that runs it. -/
theorem processes_file {script next : Script (Option HealthTracker)} {disk after : Disk} {tracker found : Option HealthTracker}
    {call : Call} {before : Disk} {events : List (FileEvent Bytes)} {outputs : List Unit}
    (ran : FileScript.machine.run (script, disk) events = some ((next, after), outputs)) :
    (processes formats).run { disk, tracker, running := some ⟨call, before, found, script⟩ } (events.map .file) =
      some ({ disk := after, tracker, running := some ⟨call, before, found, next⟩ }, []) := by
  induction events generalizing script disk outputs with
  | nil => cases ran; rfl
  | cons event events ih =>
    obtain ⟨⟨middle, between⟩, first, rest, stepped, continued, -⟩ := FileScript.machine.run_cons.mp ran
    obtain ⟨result, moved, same⟩ := Option.map_eq_some_iff.mp stepped
    cases same
    rw [List.map_cons, (processes formats).run_cons]
    refine ⟨_, [], [], ?_, ih continued, rfl⟩
    apply Option.map_eq_some_iff.mpr
    exact ⟨_, by simp only [Process.step, Option.bind_eq_bind, Option.bind_some, moved]; rfl, rfl⟩

/-- A call without a fault is a run of the process. -/
theorem perform_process (disk : Disk) (health : HealthTracker) (change : Change) :
    ∃ count, (processes formats).run { disk, tracker := some health }
        ([.call change.call] ++ ((List.replicate count .proceed).map .file ++ [.return_])) =
      some ({ disk := (perform formats (disk, health) change).1,
              tracker := some (perform formats (disk, health) change).2 }, []) := by
  obtain ⟨script, begins, ends⟩ : ∃ script, change.call.script formats (some health) = some script ∧
      script.run disk = (some (perform formats (disk, health) change).2, (perform formats (disk, health) change).1) := by
    cases change with
    | unhealthy incident => exact ⟨_, rfl, FileScript.run_bind ..⟩
    | success now => exact ⟨_, rfl, FileScript.run_bind ..⟩
  obtain ⟨count, outputs, ran⟩ := FileScript.run_machine script disk
  rw [ends] at ran
  have called : (processes formats).run { disk, tracker := some health } [.call change.call] =
      some ({ disk, tracker := some health, running := some ⟨change.call, disk, some health, script⟩ }, []) := by
    simp [Machine.run, processes, Process.step, begins]
  have worked := @processes_file formats _ _ _ _ (some health) (some health) change.call disk _ _ ran
  refine ⟨count, (processes formats).run_append.mpr ⟨_, [], [], called, ?_, rfl⟩⟩
  exact (processes formats).run_append.mpr ⟨_, [], [], worked, rfl, rfl⟩

/-- What the archive is for: the incident that is live, and those that were recovered from. -/
structure Ledger where
  live : Option HealthIncident := none
  recovered : List HealthIncident := []

def Ledger.note (ledger : Ledger) : Change → Ledger
  | .unhealthy incident => { ledger with live := some incident }
  | .success _ => ⟨none, ledger.recovered ++ ledger.live.toList⟩

/-- The incident that was live at each recovery, in order. -/
def recoveries (changes : List Change) : List HealthIncident := (changes.foldl Ledger.note {}).recovered

def wholeSeconds (time : DateTime) : Int := time.nanos / 1000000000

def archiveFiles (disk : Disk) : List (List String) := disk.files.filter fun path => [ARCHIVE_DIR] <+: path

/-- What is found beside the live file after these recoveries. -/
def archiveEntry (formats : Formats) (recovered : List HealthIncident) (path : List String) : Option (Entry Bytes) :=
  if path = [] then some .dir
  else if path = [ARCHIVE_DIR] then if recovered = [] then none else some .dir
  else (recovered.reverse.find? fun incident => archivePath formats incident.transitionedAt = path).map fun incident =>
    .file (formats.toVecPretty (unhealthyRecord incident))

def liveRecord (health : HealthTracker) : HealthRecord :=
  match health.state with
  | .healthy since => healthyRecord since
  | .unhealthy _ incident => unhealthyRecord incident

/-- The ledger is what the tracker and its files amount to. -/
structure Filed (formats : Formats) (ledger : Ledger) (disk : Disk) (health : HealthTracker) : Prop where
  state : match ledger.live with
    | none => ∃ since, health.state = .healthy since
    | some incident => health.state = .unhealthy incident.transitionedAt incident
  live : disk.lookup livePath = some (.file (formats.toVecPretty (liveRecord health)))
  rest : ∀ path, path ≠ livePath → disk.lookup path = archiveEntry formats ledger.recovered path

theorem archivePath_inj {first second : DateTime} :
    archivePath formats first = archivePath formats second ↔ formats.stamp first = formats.stamp second := by
  unfold archivePath
  simp only [List.cons.injEq, and_true, true_and]
  exact ⟨fun same => String.append_left_inj ".json" |>.mp same, fun same => by rw [same]⟩

/-- A temporary file of the archive is not taken for an archived one. -/
theorem archive_tmp_ne (first second : DateTime) :
    archivePath formats first ≠ tmpOf [ARCHIVE_DIR] (formats.stamp second ++ ".json") := by
  intro same
  have names := (List.cons.inj (List.cons.inj same).2).1
  have ends := congrArg (fun name => name.toList.getLast?) names
  simp [String.toList_append] at ends

theorem archiveEntry_tmp (recovered : List HealthIncident) (transitionedAt : DateTime) :
    archiveEntry formats recovered (tmpOf [ARCHIVE_DIR] (formats.stamp transitionedAt ++ ".json")) = none := by
  unfold archiveEntry
  rw [if_neg (by intro same; cases same), if_neg (by intro same; cases same), Option.map_eq_none_iff, List.find?_eq_none]
  intro incident _ same
  exact archive_tmp_ne _ _ (of_decide_eq_true same)

theorem archiveEntry_top (recovered : List HealthIncident) (name : String) (other : name ≠ ARCHIVE_DIR) :
    archiveEntry formats recovered [name] = none := by
  unfold archiveEntry
  rw [if_neg (by intro same; cases same), if_neg (by simpa using other), Option.map_eq_none_iff, List.find?_eq_none]
  intro incident _ same
  cases (List.cons.inj (of_decide_eq_true same)).2

theorem archiveEntry_liveTmp (recovered : List HealthIncident) :
    archiveEntry formats recovered (tmpOf [] HEALTH_FILE) = none := archiveEntry_top recovered _ (by decide)

theorem archiveEntry_archived (recovered : List HealthIncident) (transitionedAt : DateTime) :
    archiveEntry formats recovered (archivePath formats transitionedAt) =
      (recovered.reverse.find? fun incident =>
        archivePath formats incident.transitionedAt = archivePath formats transitionedAt).map fun incident =>
        .file (formats.toVecPretty (unhealthyRecord incident)) := by
  unfold archiveEntry
  rw [if_neg (by intro same; cases same), if_neg (by intro same; cases same)]

theorem archiveEntry_latest {recovered : List HealthIncident} {incident : HealthIncident} (member : incident ∈ recovered) :
    ∃ latest ∈ recovered, archivePath formats latest.transitionedAt = archivePath formats incident.transitionedAt ∧
      archiveEntry formats recovered (archivePath formats incident.transitionedAt) =
        some (.file (formats.toVecPretty (unhealthyRecord latest))) := by
  rw [archiveEntry_archived]
  have present : (recovered.reverse.find? fun other =>
      archivePath formats other.transitionedAt = archivePath formats incident.transitionedAt).isSome = true := by
    rw [List.find?_isSome]
    exact ⟨incident, List.mem_reverse.mpr member, by simp⟩
  obtain ⟨latest, first⟩ := Option.isSome_iff_exists.mp present
  have named := List.find?_some first
  refine ⟨latest, List.mem_reverse.mp (List.mem_of_find?_eq_some first), of_decide_eq_true named, ?_⟩
  rw [first]
  rfl

/-- The archive after one more recovery. -/
theorem archiveEntry_concat (recovered : List HealthIncident) (incident : HealthIncident) (path : List String) :
    archiveEntry formats (recovered ++ [incident]) path =
      if path = archivePath formats incident.transitionedAt then
        some (.file (formats.toVecPretty (unhealthyRecord incident)))
      else if path = [ARCHIVE_DIR] then some .dir else archiveEntry formats recovered path := by
  by_cases here : path = archivePath formats incident.transitionedAt
  · rw [if_pos here, here, archiveEntry_archived, List.reverse_concat, List.find?_cons_of_pos (by simp)]
    rfl
  · rw [if_neg here]
    unfold archiveEntry
    by_cases root : path = []
    · rw [if_pos root, if_pos root, if_neg (by rw [root]; intro same; cases same)]
    · rw [if_neg root, if_neg root]
      by_cases dir : path = [ARCHIVE_DIR]
      · rw [if_pos dir, if_pos dir, if_neg (by simp)]
      · rw [if_neg dir, if_neg dir, if_neg dir, List.reverse_concat, List.find?_cons_of_neg (by simpa using Ne.symm here)]

section Perform

variable {ledger : Ledger} {disk : Disk} {health : HealthTracker}

theorem writeLive_run (filed : Filed formats ledger disk health) (record : HealthRecord) :
    ∃ after, (writeLive formats record).run disk = (.ok (), after) ∧
      after.lookup livePath = some (.file (formats.toVecPretty record)) ∧
      ∀ path, path ≠ livePath → after.lookup path = archiveEntry formats ledger.recovered path := by
  have target : disk.lookup ([] ++ [HEALTH_FILE]) ≠ some .dir := by
    intro impossible
    cases filed.live.symm.trans impossible
  have vacant : disk.lookup (tmpOf [] HEALTH_FILE) = none :=
    (filed.rest _ livePath_ne_tmp.symm).trans (archiveEntry_liveTmp _)
  have free : disk.lookup (tmpOf [] HEALTH_FILE) ≠ some .dir := by
    intro impossible
    cases vacant.symm.trans impossible
  obtain ⟨after, ran, landed, gone⟩ := atomicWrite_run (formats.toVecPretty record) disk.lookup_root target free
  refine ⟨after, ran, landed.file, ?_⟩
  intro path other
  by_cases temporary : path = tmpOf [] HEALTH_FILE
  · rw [temporary, gone, archiveEntry_liveTmp]
  · rw [landed.rest path other temporary, filed.rest path other]

theorem archiveCurrent_run {incident : HealthIncident} (filed : Filed formats ledger disk health)
    (state : health.state = .unhealthy incident.transitionedAt incident) :
    ∃ after, (archiveCurrent formats incident.transitionedAt).run disk = (.ok (), after) ∧
      Filed formats { ledger with recovered := ledger.recovered ++ [incident] } after health := by
  have live : disk.lookup livePath = some (.file (formats.toVecPretty (unhealthyRecord incident))) := by
    have file := filed.live
    unfold liveRecord at file
    rw [state] at file
    exact file
  obtain ⟨made, created⟩ : ∃ made, disk.createDirAll [ARCHIVE_DIR] = .ok made := by
    cases created : disk.createDirAll [ARCHIVE_DIR] with
    | ok made => exact ⟨made, rfl⟩
    | error errno =>
      obtain ⟨above, within, file⟩ := Shape.blocked_iff.mp (FileTree.createDirAll_error created)
      obtain ⟨content, there⟩ := FileTree.shape_file_iff.mp file
      rcases List.prefix_cons_iff.mp within with rfl | ⟨rest, rfl, last⟩
      · cases disk.lookup_root.symm.trans there
      · rw [List.prefix_nil.mp last, filed.rest _ (by decide)] at there
        unfold archiveEntry at there
        rw [if_neg (by decide), if_pos rfl] at there
        split at there <;> cases there
  have lookups := (FileTree.createDirAll_ok created).2
  have kept : made.lookup livePath = some (.file (formats.toVecPretty (unhealthyRecord incident))) := by
    rw [lookups, if_neg (by decide), live]
  have found : made.readFile livePath = .ok (formats.toVecPretty (unhealthyRecord incident)) := by
    unfold FileTree.readFile
    rw [FileTree.resolve_file kept]
  have parent : made.lookup [ARCHIVE_DIR] = some .dir := by rw [lookups, if_pos (List.prefix_refl _)]
  have below : ∀ name, made.lookup [ARCHIVE_DIR, name] = archiveEntry formats ledger.recovered [ARCHIVE_DIR, name] := by
    intro name
    have outside : ¬ [ARCHIVE_DIR, name] <+: [ARCHIVE_DIR] := by
      intro within
      exact absurd within.length_le (by simp)
    rw [lookups, if_neg outside, filed.rest _ (by intro same; cases (List.cons.inj same).2)]
  have target : made.lookup (archivePath formats incident.transitionedAt) ≠ some .dir := by
    intro dir
    rw [archivePath, below, ← archivePath, archiveEntry_archived, Option.map_eq_some_iff] at dir
    obtain ⟨_, _, impossible⟩ := dir
    cases impossible
  have vacant : made.lookup (tmpOf [ARCHIVE_DIR] (formats.stamp incident.transitionedAt ++ ".json")) = none :=
    (below _).trans (archiveEntry_tmp _ _)
  have free : made.lookup (tmpOf [ARCHIVE_DIR] (formats.stamp incident.transitionedAt ++ ".json")) ≠ some .dir := by
    intro impossible
    cases vacant.symm.trans impossible
  obtain ⟨after, ran, landed, gone⟩ :=
    atomicWrite_run (formats.toVecPretty (unhealthyRecord incident)) parent target free
  refine ⟨after, ?_, filed.state, ?_, ?_⟩
  · have written : FileScript.run (atomicWrite (archivePath formats incident.transitionedAt)
        (formats.toVecPretty (unhealthyRecord incident))) made = (.ok (), after) := ran
    unfold archiveCurrent
    simp only [FileScript.run, live, Option.isSome_some, Bool.not_true, Bool.false_eq_true, if_false, created, found, orIo,
      written]
  · rw [landed.rest livePath archivePath_ne.1.symm (by intro same; cases (List.cons.inj same).2), lookups,
      if_neg (by decide), filed.live]
  · intro path other
    rw [archiveEntry_concat]
    by_cases here : path = archivePath formats incident.transitionedAt
    · rw [if_pos here, here]
      exact landed.file
    · rw [if_neg here]
      by_cases temporary : path = tmpOf [ARCHIVE_DIR] (formats.stamp incident.transitionedAt ++ ".json")
      · rw [temporary, gone, if_neg (by intro same; cases (List.cons.inj same).2), archiveEntry_tmp]
      · rw [landed.rest path here temporary, lookups, filed.rest path other]
        by_cases dir : path = [ARCHIVE_DIR]
        · rw [if_pos dir, if_pos (by rw [dir])]
        · rw [if_neg dir]
          by_cases root : path = []
          · rw [if_pos (by rw [root]; exact List.nil_prefix), root]
            rfl
          · rw [if_neg]
            intro within
            rcases List.prefix_cons_iff.mp within with none | ⟨rest, same, last⟩
            · exact root none
            · exact dir (by rw [same, List.prefix_nil.mp last])

theorem Filed.perform (filed : Filed formats ledger disk health) (change : Change) :
    Filed formats (ledger.note change) (perform formats (disk, health) change).1
      (perform formats (disk, health) change).2 := by
  cases change with
  | unhealthy incident =>
    obtain ⟨after, ran, live, rest⟩ := writeLive_run filed (unhealthyRecord incident)
    simp only [Proofs.perform, transitionToUnhealthy, FileScript.run_bind, ran, FileScript.run]
    exact ⟨rfl, live, rest⟩
  | success now =>
    have state := filed.state
    cases holding : ledger.live with
    | none =>
      rw [holding] at state
      obtain ⟨since, healthy⟩ := state
      simp only [Proofs.perform, markTickSuccess, healthy, FileScript.run]
      have noted : ledger.note (.success now) = ledger := by
        unfold Ledger.note
        rw [holding, Option.toList_none, List.append_nil, ← holding]
      rw [noted]
      exact ⟨filed.state, filed.live, filed.rest⟩
    | some incident =>
      rw [holding] at state
      obtain ⟨between, archived, kept⟩ := archiveCurrent_run filed state
      obtain ⟨after, ran, live, rest⟩ := writeLive_run kept (healthyRecord now)
      simp only [Proofs.perform, markTickSuccess, state, FileScript.run_bind, archived, writeHealthy, ran, FileScript.run]
      have noted : ledger.note (.success now) = ⟨none, ledger.recovered ++ [incident]⟩ := by
        unfold Ledger.note
        rw [holding, Option.toList_some]
      rw [noted]
      exact ⟨⟨now, rfl⟩, live, rest⟩

theorem filed_run (filed : Filed formats ledger disk health) (changes : List Change) :
    Filed formats (changes.foldl Ledger.note ledger) (changes.foldl (perform formats) (disk, health)).1
      (changes.foldl (perform formats) (disk, health)).2 := by
  induction changes generalizing ledger disk health with
  | nil => exact filed
  | cons change changes ih => exact ih (filed.perform change)

theorem writeHealthy_fresh (formats : Formats) (now : DateTime) :
    ∃ after, (writeHealthy formats now).run FileTree.empty = (.ok (), after) ∧
      after.lookup livePath = some (.file (formats.toVecPretty (healthyRecord now))) ∧
      ∀ path, path ≠ livePath → after.lookup path = if path = [] then some .dir else none := by
  have free : ∀ path : List String, path ≠ [] → (FileTree.empty : Disk).lookup path ≠ some .dir := by
    intro path proper
    rw [FileTree.lookup_empty, if_neg proper]
    intro impossible
    cases impossible
  obtain ⟨after, ran, landed, gone⟩ := atomicWrite_run (formats.toVecPretty (healthyRecord now)) (FileTree.lookup_root _)
    (free ([] ++ [HEALTH_FILE]) (by decide)) (free _ (by decide))
  refine ⟨after, ran, landed.file, ?_⟩
  intro path other
  by_cases temporary : path = tmpOf [] HEALTH_FILE
  · rw [temporary, gone, if_neg (by decide)]
  · rw [landed.rest path other temporary, FileTree.lookup_empty]

/-- The tracker of a new agent. -/
theorem open_fresh (formats : Formats) (budget : RetryBudget) (now : DateTime) :
    ∃ disk, (openTracker formats budget now).run FileTree.empty = (.ok { budget, state := .healthy now }, disk) ∧
      Filed formats {} disk { budget, state := .healthy now } := by
  obtain ⟨after, wrote, live, rest⟩ := writeHealthy_fresh formats now
  have vacant : (FileTree.empty : Disk).lookup livePath = none := by
    rw [FileTree.lookup_empty, if_neg (by decide)]
  refine ⟨after, ?_, ⟨now, rfl⟩, live, ?_⟩
  · unfold openTracker
    simp only [FileScript.run, vacant, Option.isSome_none, Bool.false_eq_true, if_false, FileScript.run_bind, wrote]
  · intro path other
    rw [rest path other]
    unfold archiveEntry
    split
    · rfl
    · split <;> rfl

theorem mem_archiveFiles (filed : Filed formats ledger disk health) {path : List String} :
    path ∈ archiveFiles disk ↔ path ∈ ledger.recovered.map (archivePath formats ·.transitionedAt) := by
  unfold archiveFiles
  rw [List.mem_filter, FileTree.mem_files, FileTree.shape_file_iff, decide_eq_true_eq, List.mem_map]
  constructor
  · rintro ⟨⟨content, found⟩, within⟩
    have other : path ≠ livePath := by
      rintro rfl
      exact absurd within (by decide)
    rw [filed.rest path other] at found
    unfold archiveEntry at found
    split at found
    · cases found
    · split at found
      · split at found <;> cases found
      · obtain ⟨incident, first, -⟩ := Option.map_eq_some_iff.mp found
        have named := List.find?_some first
        exact ⟨incident, List.mem_reverse.mp (List.mem_of_find?_eq_some first), of_decide_eq_true named⟩
  · rintro ⟨incident, member, rfl⟩
    refine ⟨?_, ⟨[_], rfl⟩⟩
    obtain ⟨latest, -, -, found⟩ := archiveEntry_latest member
    exact ⟨_, (filed.rest _ archivePath_ne.1).trans found⟩

theorem length_archiveFiles (filed : Filed formats ledger disk health) :
    (archiveFiles disk).length = ledger.recovered.length ↔
      (ledger.recovered.map (archivePath formats ·.transitionedAt)).Nodup := by
  have distinct : (archiveFiles disk).Nodup := (FileTree.nodup_files disk).filter _
  have same : (archiveFiles disk).toFinset = (ledger.recovered.map (archivePath formats ·.transitionedAt)).toFinset := by
    ext path
    rw [List.mem_toFinset, List.mem_toFinset, mem_archiveFiles filed]
  rw [← List.toFinset_card_of_nodup distinct, same,
    ← (List.length_map (archivePath formats ·.transitionedAt) : _ = ledger.recovered.length)]
  exact Multiset.toFinset_card_eq_card_iff_nodup

/-- The one incident of its name is the one in the file. -/
theorem lookup_archived (filed : Filed formats ledger disk health)
    (distinct : (ledger.recovered.map (archivePath formats ·.transitionedAt)).Nodup) {incident : HealthIncident}
    (member : incident ∈ ledger.recovered) :
    disk.lookup (archivePath formats incident.transitionedAt) =
      some (.file (formats.toVecPretty (unhealthyRecord incident))) := by
  obtain ⟨latest, among, named, found⟩ := archiveEntry_latest member
  rw [filed.rest _ archivePath_ne.1, found, List.inj_on_of_nodup_map distinct among member named]

end Perform

/-- Only what has been reported is recovered from. -/
theorem mem_recovered {changes : List Change} {ledger : Ledger} {incident : HealthIncident}
    (member : incident ∈ (changes.foldl Ledger.note ledger).recovered) :
    incident ∈ ledger.recovered ∨ ledger.live = some incident ∨ .unhealthy incident ∈ changes := by
  induction changes generalizing ledger with
  | nil => exact .inl member
  | cons change changes ih =>
    rcases ih member with recovered | live | later
    · cases change with
      | unhealthy other => exact .inl recovered
      | success now =>
        rcases List.mem_append.mp recovered with before | held
        · exact .inl before
        · exact .inr (.inl (Option.mem_toList.mp held))
    · cases change with
      | unhealthy other =>
        rw [← Option.some.inj live]
        exact .inr (.inr List.mem_cons_self)
      | success now => cases live
    · exact .inr (.inr (List.mem_cons_of_mem _ later))

/-- One file for each recovery, and each incident readable in one. -/
def IncidentsKept (formats : Formats) (disk : Disk) (changes : List Change) : Prop :=
  (archiveFiles disk).length = (recoveries changes).length ∧
    ∀ incident ∈ recoveries changes, ∃ path ∈ archiveFiles disk, ∃ bytes, disk.lookup path = some (.file bytes) ∧
      formats.fromSlice bytes = .ok (unhealthyRecord incident)

theorem nodup_archivePaths {incidents : List HealthIncident}
    (whole : ∀ first ∈ incidents, ∀ second ∈ incidents,
      formats.stamp first.transitionedAt = formats.stamp second.transitionedAt ↔
        wholeSeconds first.transitionedAt = wholeSeconds second.transitionedAt) :
    (incidents.map (archivePath formats ·.transitionedAt)).Nodup ↔
      (incidents.map fun incident => wholeSeconds incident.transitionedAt).Nodup := by
  unfold List.Nodup
  rw [List.pairwise_map, List.pairwise_map]
  apply List.Pairwise.iff_of_mem
  intro first second here there
  rw [ne_eq, ne_eq, archivePath_inj, whole first here second there]

/-- No incident is lost exactly when no two that were recovered from began within one second. -/
theorem incidents_kept_iff {budget : RetryBudget} {now : DateTime} {disk : Disk} {health : HealthTracker}
    {changes : List Change}
    (whole : ∀ first ∈ recoveries changes, ∀ second ∈ recoveries changes,
      formats.stamp first.transitionedAt = formats.stamp second.transitionedAt ↔
        wholeSeconds first.transitionedAt = wholeSeconds second.transitionedAt)
    (legible : ∀ change ∈ changes, ∀ record ∈ change.records, Legible formats record)
    (opened : (openTracker formats budget now).run FileTree.empty = (.ok health, disk)) :
    IncidentsKept formats (changes.foldl (perform formats) (disk, health)).1 changes ↔
      ((recoveries changes).map fun incident => wholeSeconds incident.transitionedAt).Nodup := by
  obtain ⟨fresh, ran, start⟩ := open_fresh formats budget now
  rw [ran] at opened
  cases opened
  have filed := filed_run start changes
  rw [← nodup_archivePaths whole]
  constructor
  · intro kept
    exact (length_archiveFiles filed).mp kept.1
  · intro distinct
    refine ⟨(length_archiveFiles filed).mpr distinct, ?_⟩
    intro incident member
    refine ⟨_, (mem_archiveFiles filed).mpr (List.mem_map_of_mem member), _, lookup_archived filed distinct member, ?_⟩
    rcases mem_recovered member with none | none | reported
    · cases none
    · cases none
    · exact legible _ reported _ List.mem_cons_self

section Incidents

private def failedAt (transitionedAt : DateTime) : HealthIncident where
  failing := ⟨.inference, .null⟩
  retryTrail := []
  lastError := "timeout"
  transitionedAt := transitionedAt

private def instant (milliseconds : Int) : DateTime := ⟨milliseconds * 1000000⟩

private def secondsText (time : DateTime) : String :=
  if time = instant 0 then "00Z" else if time = instant 500 then "00.500Z" else if time = instant 1000 then "01Z" else "02Z"

private def recordText (record : HealthRecord) : String :=
  let since := "\"1970-01-01T00:00:" ++ secondsText record.since ++ "\""
  match record.state with
  | .healthy => "\x7b\n  \"version\": 1,\n  \"state\": \"Healthy\",\n  \"since\": " ++ since ++ "\n\x7d"
  | .unhealthy =>
    "\x7b\n  \"version\": 1,\n  \"state\": \"Unhealthy\",\n  \"since\": " ++ since ++ ",\n  \"incident\": \x7b\n" ++
    "    \"failing\": \x7b\n      \"type\": \"Inference\",\n      \"details\": null\n    \x7d,\n" ++
    "    \"retry_trail\": [],\n    \"last_error\": \"timeout\",\n    \"transitioned_at\": " ++ since ++ "\n  \x7d\n\x7d"

private def knownRecords : List HealthRecord :=
  [unhealthyRecord (failedAt (instant 0)), unhealthyRecord (failedAt (instant 500)),
    unhealthyRecord (failedAt (instant 1000)), healthyRecord (instant 2000)]

private def encoded (text : String) : Bytes := text.toByteArray.data.toList

private theorem encoded_injective : Function.Injective encoded :=
  fun _ _ same => String.toByteArray_inj.mp (ByteArray.ext (Array.toList_inj.mp same))

/-- As far as the first seconds of 1970 go. -/
private def firstSeconds : Formats where
  toVecPretty record := encoded (recordText record)
  fromSlice bytes :=
    match knownRecords.find? fun record => encoded (recordText record) = bytes with
    | some record => .ok record
    | none => .error "expected value at line 1 column 1"
  stamp time := if wholeSeconds time = 0 then "1970-01-01T00:00:00Z" else "1970-01-01T00:00:01Z"

private theorem texts_apart : (knownRecords.map recordText).Nodup := by decide

private theorem legible_known {record : HealthRecord} (known : record ∈ knownRecords) : Legible firstSeconds record := by
  have present : (knownRecords.find? fun other => encoded (recordText other) = encoded (recordText record)).isSome = true := by
    rw [List.find?_isSome]
    exact ⟨record, known, decide_eq_true rfl⟩
  obtain ⟨other, found⟩ := Option.isSome_iff_exists.mp present
  have agree := List.find?_some found
  have same := List.inj_on_of_nodup_map texts_apart (List.mem_of_find?_eq_some found) known
    (encoded_injective (of_decide_eq_true agree))
  unfold Legible firstSeconds
  simp only [found, same]

private def relapse (first second : DateTime) : List Change :=
  [.unhealthy (failedAt first), .success (instant 2000), .unhealthy (failedAt second), .success (instant 2000)]

private theorem legible_relapse {first second : DateTime} (one : unhealthyRecord (failedAt first) ∈ knownRecords)
    (two : unhealthyRecord (failedAt second) ∈ knownRecords) :
    ∀ change ∈ relapse first second, ∀ record ∈ change.records, Legible firstSeconds record := by
  have healthy : healthyRecord (instant 2000) ∈ knownRecords := by decide
  simp only [relapse, List.forall_mem_cons, Change.records]
  simp [legible_known one, legible_known two, legible_known healthy]

/-- The second failure is half a second after the first, and the archive holds one file. -/
theorem incident_overwritten : ∃ disk health,
    (openTracker firstSeconds {} (instant 2000)).run FileTree.empty = (.ok health, disk) ∧
    (∀ change ∈ relapse (instant 0) (instant 500), ∀ record ∈ change.records, Legible firstSeconds record) ∧
    (recoveries (relapse (instant 0) (instant 500))).length = 2 ∧
    ¬ IncidentsKept firstSeconds ((relapse (instant 0) (instant 500)).foldl (perform firstSeconds) (disk, health)).1
      (relapse (instant 0) (instant 500)) := by
  obtain ⟨disk, ran, fresh⟩ := open_fresh firstSeconds {} (instant 2000)
  refine ⟨disk, _, ran, legible_relapse (by decide) (by decide), rfl, ?_⟩
  intro kept
  have distinct := (length_archiveFiles (filed_run fresh _)).mp kept.1
  revert distinct
  decide

/-- With a second between them, both incidents are kept. -/
theorem incidents_kept_iff_apart : ∃ disk health,
    (openTracker firstSeconds {} (instant 2000)).run FileTree.empty = (.ok health, disk) ∧
    IncidentsKept firstSeconds ((relapse (instant 0) (instant 1000)).foldl (perform firstSeconds) (disk, health)).1
      (relapse (instant 0) (instant 1000)) := by
  obtain ⟨disk, ran, -⟩ := open_fresh firstSeconds {} (instant 2000)
  refine ⟨disk, _, ran, (incidents_kept_iff ?_ (legible_relapse (by decide) (by decide)) ran).mpr (by decide)⟩
  decide

end Incidents

end Coral.HealthFiles.Proofs

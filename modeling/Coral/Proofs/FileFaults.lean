import Coral.Library.Machine
import Coral.Proofs.DiskCalls
import Coral.Proofs.NotesIndex

/-! A path that the model gets wrong is its own mistake, and no fault of the disk, as long
as it clashes with no directory and with no file above it. A put clashes also with a directory
at its temporary path, which a model that knows the process could name. -/

namespace Coral.Proofs
open Coral.Library

/-- The steps that come to calls of `AgentFs` alone. -/
def onFiles : Decision → Bool
  | .writeOutput _ _ | .rewriteFs _ | .read _ | .list _ | .search _ _ => true
  | _ => false

/-- The mistakes that `write_output` turns into observations. -/
def correctedCitation : FsError → Bool
  | .emptyEvidence | .evidenceNotFound _ | .citationNotEvidence _ => true
  | _ => false

/-- What is at a path: a directory, or a file with the names it has as a recency sidecar. -/
inductive Mark where
  | dir
  | file (tracked : List String)
deriving DecidableEq

def trackedIn (content : Content) : List String := (content.asTail.getD {}).entries.map (·.filename)

def Mark.of : Entry Content → Mark
  | .dir => .dir
  | .file content => .file (trackedIn content)

def Mark.kind : Mark → Kind
  | .dir => .dir
  | .file _ => .file

/-- The disk without what its files say. -/
structure Layout where
  marks : List Name → Option Mark
  pid : UInt32
  counter : UInt64

namespace Layout

def of (disk : LocalDisk) : Layout := ⟨fun path => (disk.tree.lookup path).map .of, disk.pid, disk.tmpCounter⟩

def shape (layout : Layout) : Shape Name := fun path => (layout.marks path).map Mark.kind

def tracked (layout : Layout) (path : List Name) : List String :=
  match layout.marks path with
  | some (.file tracked) => tracked
  | _ => []

def passable (layout : Layout) (path : List Name) : Bool := Proofs.passable layout.shape layout.pid layout.counter path

/-- The layout after a put, if it goes through. -/
def put (layout : Layout) (path : List Name) (tracked : List String) : Option Layout :=
  if layout.passable path then
    some { layout with
      marks := fun other => if other = tmpPathFor path layout.pid layout.counter then none
        else if other = path then some (.file tracked) else if other <+: path then some .dir else layout.marks other
      counter := layout.counter + 1 }
  else none

def delete (layout : Layout) (path : List Name) : Option Layout :=
  if layout.shape.clear path then some { layout with marks := fun other => if other = path then none else layout.marks other }
  else none

end Layout

section Shaped

variable (fs : AgentFs)

def readable (shape : Shape Name) (path : String) : Bool :=
  match AgentFs.cleanRelpath path with
  | .ok rel => shape.clear (keyPath (fs.key rel))
  | .error _ => true

def scannable (shape : Shape Name) (path : String) : Bool :=
  match fs.dirPrefix path with
  | .ok start => shape (LocalStorage.scanRoot start) ≠ some .file
  | .error _ => true

/-- The first citation that is no record decides; if all are, the output itself does. -/
def citable (layout : Layout) : List String → Bool
  | [] => layout.passable (keyPath (fs.key CANONICAL_OUTPUT))
  | path :: citations =>
    match AgentFs.evidenceRelpathChecked path with
    | .ok rel =>
      layout.shape.clear (keyPath (fs.key rel)) &&
        (layout.shape (keyPath (fs.key rel)) ≠ some .file || citable layout citations)
    | .error error => correctedCitation error

def sidecar : List Name := keyPath (fs.key NOTES_TAIL_SUFFIX)

/-- The layout after an operation and what the recency sidecar makes of it, if all goes through.
A note that the sidecar does not know is deleted without a put. -/
def operated (layout : Layout) (key : String) : FsOp → Option Layout
  | .writeFile _ _ => do
    let written ← layout.put (keyPath key) []
    match stripStart key (fs.key "notes/") with
    | some note => written.put (sidecar fs) ((note :: (written.tracked (sidecar fs)).filter (· != note)).take TAIL_K)
    | none => some written
  | .deleteFile _ => do
    let deleted ← layout.delete (keyPath key)
    match stripStart key (fs.key "notes/") with
    | some note =>
      if deleted.shape.clear (sidecar fs) = false then none
      else if note ∈ deleted.tracked (sidecar fs) then
        deleted.put (sidecar fs) ((deleted.tracked (sidecar fs)).filter (· != note))
      else some deleted
    | none => some deleted

/-- Every operation goes through at its turn. -/
def fits (layout : Layout) (planned : List (String × FsOp)) : Bool :=
  (planned.foldlM (fun layout step => operated fs layout step.1 step.2) layout).isSome

/-- The paths of a step agree with the layout of the disk. -/
def wellShaped (layout : Layout) : Decision → Bool
  | .read path => readable fs layout.shape path
  | .list path | .search _ (some path) => scannable fs layout.shape path
  | .search _ none => layout.shape (LocalStorage.scanRoot fs.storagePrefix) ≠ some .file
  | .writeOutput _ citations => citations.isEmpty || citable fs layout citations
  | .rewriteFs ops =>
    match fs.planOps ops with
    | .ok planned => fits fs layout planned
    | .error _ => true
  | _ => true

end Shaped

/-- The step is answered, and a batch that fails has touched no note. -/
structure Forgiven (fs : AgentFs) (disk : LocalDisk) (action : Decision)
    (result : Except FsError StepOutcome × LocalDisk) : Prop where
  answered : ∃ outcome, result.1 = .ok outcome
  untouched : ∀ ops, action = .rewriteFs ops → (∀ outcome, result.1 = .ok outcome → outcome.failure ≠ none) →
    ∀ path, keyPath (fs.key "notes") <+: path → result.2.tree.lookup path = disk.tree.lookup path

section Calls

variable {fs : AgentFs} {disk : LocalDisk}

theorem tolerates_cleanRelpath (path : String) : Tolerates FsError.isModelFault (AgentFs.cleanRelpath path) := by
  unfold AgentFs.cleanRelpath
  split
  · exact tolerates_ok _
  · exact tolerates_error.mpr rfl

theorem tolerates_dirPrefix (path : String) : Tolerates FsError.isModelFault (fs.dirPrefix path) := by
  unfold AgentFs.dirPrefix
  exact tolerates_bind.mpr ⟨tolerates_cleanRelpath path, fun rel _ => tolerates_pure _⟩

theorem get_healthy (healthy : Healthy disk) (key : String) : AgentFs.get disk key = AgentFs.get disk.store key :=
  congrArg (AgentFs.stored key) (get_taken fun tree => healthy tree _)

theorem getMany_healthy (healthy : Healthy disk) (keys : List String) :
    AgentStorage.getMany disk keys = AgentStorage.getMany disk.store keys := by
  have same : (AgentStorage.get disk : String → _) = AgentStorage.get disk.store := by
    funext key
    exact get_taken fun tree => healthy tree _
  unfold AgentStorage.getMany
  rw [same]

theorem put_goes (healthy : Healthy disk) {key : String}
    (passes : passable disk.tree.shape disk.pid disk.tmpCounter (keyPath key) = true) (value : Content) :
    ∃ after : LocalDisk, AgentFs.put disk key value = .ok after ∧ PutThrough disk (keyPath key) value after := by
  obtain ⟨after, written, through⟩ := put_passable (fun tree => healthy tree _) passes value
  refine ⟨after, ?_, through⟩
  change AgentFs.stored key (disk.put key value) = _
  rw [written]
  rfl

theorem put_fails {key : String} (blocked : passable disk.tree.shape disk.pid disk.tmpCounter (keyPath key) = false)
    (value : Content) : ∃ source, AgentFs.put disk key value = .error (.storage key source) := by
  obtain ⟨source, failed⟩ := put_impassable blocked value
  refine ⟨source, ?_⟩
  change AgentFs.stored key (disk.put key value) = _
  rw [failed]
  rfl

theorem shape_of (disk : LocalDisk) : (Layout.of disk).shape = disk.tree.shape := by
  funext path
  unfold Layout.shape Layout.of FileTree.shape
  rw [Option.map_map]
  congr 1
  funext entry
  cases entry <;> rfl

theorem tracked_of (disk : LocalDisk) (path : List Name) :
    (Layout.of disk).tracked path = (((disk.tree.read path).bind Content.asTail).getD {}).entries.map (·.filename) := by
  unfold Layout.tracked Layout.of FileTree.read
  cases found : disk.tree.lookup path with
  | none =>
    simp only [found]
    rfl
  | some entry =>
    simp only [found]
    cases entry <;> rfl

theorem put_of {after : LocalDisk} {path : List Name} {value : Content} (through : PutThrough disk path value after)
    (passes : passable disk.tree.shape disk.pid disk.tmpCounter path = true) :
    (Layout.of disk).put path (trackedIn value) = some (.of after) := by
  unfold Layout.put
  rw [if_pos (by unfold Layout.passable; rw [shape_of]; exact passes)]
  congr 1
  unfold Layout.of
  rw [through.pid, through.counter]
  congr 1
  funext other
  rw [through.lookup]
  unfold LocalDisk.tmpPath
  split
  · rfl
  · split
    · rfl
    · split <;> rfl

/-- A call fails with a fault unless its path is clear. -/
theorem tolerates_get {kind : FsError → Bool} (strict : ∀ key source, kind (.storage key source) = false)
    (healthy : Healthy disk) (key : String) :
    Tolerates kind (AgentFs.get disk key) ↔ disk.tree.shape.clear (keyPath key) = true := by
  rw [get_healthy healthy]
  cases clear : disk.tree.shape.clear (keyPath key) with
  | true => simp [@get_clear disk.store key clear]
  | false =>
    obtain ⟨source, failed⟩ := @get_unclear disk.store key clear
    simp [failed, strict]

theorem tolerates_put {kind : FsError → Bool} (strict : ∀ key source, kind (.storage key source) = false)
    (healthy : Healthy disk) (key : String) (value : Content) : Tolerates kind (AgentFs.put disk key value) ↔
      passable disk.tree.shape disk.pid disk.tmpCounter (keyPath key) = true := by
  cases passes : passable disk.tree.shape disk.pid disk.tmpCounter (keyPath key) with
  | true =>
    obtain ⟨after, written, -⟩ := put_goes healthy passes value
    simp [written]
  | false =>
    obtain ⟨source, failed⟩ := put_fails passes value
    simp [failed, strict]

theorem tolerates_listAll (start : String) :
    Tolerates FsError.isModelFault (AgentFs.listAll disk start) ↔
      disk.tree.shape (LocalStorage.scanRoot start) ≠ some .file := by
  change Tolerates _ (AgentFs.listAll disk.store start) ↔ disk.store.tree.shape (LocalStorage.scanRoot start) ≠ some .file
  by_cases file : disk.store.tree.shape (LocalStorage.scanRoot start) = some .file
  · obtain ⟨source, failed⟩ := listAll_file file
    simp [failed, file, FsError.isModelFault]
  · obtain ⟨keys, listed, -⟩ := listAll_dir file
    simp [listed, file]

theorem readFile_answered (healthy : Healthy disk) (render : Content → String) (path : String) :
    Tolerates FsError.isModelFault (fs.readFile render disk path) ↔
      readable fs disk.tree.shape path = true := by
  unfold AgentFs.readFile readable
  rw [tolerates_bind]
  cases cleaned : AgentFs.cleanRelpath path with
  | error error =>
    have known := tolerates_cleanRelpath path
    rw [cleaned] at known
    simp [known]
  | ok rel =>
    simp only [tolerates_ok, true_and, Except.ok.injEq, forall_eq']
    rw [tolerates_bind, tolerates_get (fun _ _ => rfl) healthy]
    refine and_iff_left_of_imp fun _ found _ => ?_
    cases found with
    | none => exact tolerates_error.mpr rfl
    | some content => exact tolerates_pure _

theorem listDir_answered (path : String) :
    Tolerates FsError.isModelFault (fs.listDir disk path) ↔ scannable fs disk.tree.shape path = true := by
  unfold AgentFs.listDir scannable
  rw [tolerates_bind]
  cases cleaned : fs.dirPrefix path with
  | error error =>
    have known : Tolerates FsError.isModelFault (fs.dirPrefix path) := tolerates_dirPrefix path
    rw [cleaned] at known
    simp [known]
  | ok start =>
    simp only [tolerates_ok, true_and, Except.ok.injEq, forall_eq', decide_eq_true_eq]
    rw [tolerates_bind, tolerates_listAll]
    exact and_iff_left_of_imp fun _ keys _ => tolerates_pure _

theorem search_answered (healthy : Healthy disk) (render : Content → String) (query : String) (path : Option String) :
    Tolerates FsError.isModelFault (fs.search render disk query path) ↔
      wellShaped fs (.of disk) (.search query path) = true := by
  have under : ∀ start, fs.searchPrefix path = .ok start →
      (Tolerates FsError.isModelFault (fs.search render disk query path) ↔
        disk.tree.shape (LocalStorage.scanRoot start) ≠ some .file) := by
    intro start found
    unfold AgentFs.search
    rw [found, tolerates_bind]
    simp only [tolerates_ok, true_and, Except.ok.injEq, forall_eq']
    rw [tolerates_bind, tolerates_listAll]
    refine and_iff_left_of_imp fun apart listed found => ?_
    obtain ⟨all, same, files⟩ := @listAll_dir disk.store start apart
    rw [show AgentFs.listAll disk.store start = AgentFs.listAll disk start from rfl, found, Except.ok.injEq] at same
    subst same
    obtain ⟨blobs, read⟩ := @getMany_files disk.store (listed.filter fun key => !endsWithText key "/_tail.json")
      fun key member => files key (List.mem_of_mem_filter member)
    rw [getMany_healthy healthy, read]
    exact tolerates_pure _
  cases path with
  | none =>
    rw [under fs.storagePrefix rfl]
    simp [wellShaped, shape_of]
  | some path =>
    simp only [wellShaped, scannable, shape_of]
    cases cleaned : fs.dirPrefix path with
    | error error =>
      have known : Tolerates FsError.isModelFault (fs.dirPrefix path) := tolerates_dirPrefix path
      rw [cleaned, tolerates_error] at known
      unfold AgentFs.search
      rw [tolerates_bind, show fs.searchPrefix (some path) = .error error from cleaned]
      simp [known]
    | ok start =>
      rw [under start cleaned]
      simp

private theorem correctedCitation_storage (key : String) (source : StorageError) :
    correctedCitation (.storage key source) = false := rfl

private theorem cite_answered (healthy : Healthy disk) (body : String) (citations : List String) :
    Tolerates correctedCitation (do
      fs.citationsExist disk citations
      AgentFs.put disk (fs.key CANONICAL_OUTPUT) (.text body)) ↔ citable fs (.of disk) citations = true := by
  induction citations with
  | nil =>
    refine (tolerates_put correctedCitation_storage healthy _ _).trans ?_
    unfold citable Layout.passable
    rw [shape_of]
    rfl
  | cons path citations ih =>
    unfold AgentFs.citationsExist AgentFs.evidenceMustExist citable
    cases checked : AgentFs.evidenceRelpathChecked path with
    | error error =>
      change Tolerates correctedCitation (.error error) ↔ _
      exact tolerates_error
    | ok rel =>
      simp only [bind_assoc, shape_of]
      change Tolerates correctedCitation (AgentFs.get disk (fs.key rel) >>= _) ↔ _
      rw [tolerates_bind, tolerates_get correctedCitation_storage healthy, Bool.and_eq_true]
      refine and_congr_right fun clear => ?_
      have there : (disk.tree.read (keyPath (fs.key rel))).isSome = true ↔ _ := FileTree.isSome_read
      rw [get_healthy healthy, @get_clear disk.store (fs.key rel) clear]
      change (∀ value, Except.ok (disk.tree.read (keyPath (fs.key rel))) = _ → _) ↔ _
      simp only [Except.ok.injEq, forall_eq', Bool.or_eq_true, decide_eq_true_eq]
      cases present : disk.tree.read (keyPath (fs.key rel)) with
      | none =>
        change Tolerates correctedCitation (.error (.evidenceNotFound path)) ↔ _
        rw [present] at there
        simp [correctedCitation, ← there]
      | some content =>
        change Tolerates correctedCitation (fs.citationsExist disk citations >>= _) ↔ _
        rw [present] at there
        rw [ih]
        simp [← there]

theorem writeOutput_answered (healthy : Healthy disk) (body : String) (citations : List String) :
    (∃ outcome, (writeOutput fs body citations disk).1 = .ok outcome) ↔
      wellShaped fs (.of disk) (.writeOutput body citations) = true := by
  have tolerated : (∃ outcome, (writeOutput fs body citations disk).1 = .ok outcome) ↔
      Tolerates correctedCitation (fs.persistOutput body citations disk) := by
    unfold writeOutput
    cases fs.persistOutput body citations disk with
    | ok after => simp
    | error error => cases error <;> simp [correctedCitation]
  rw [tolerated]
  unfold AgentFs.persistOutput
  cases citations with
  | nil =>
    change Tolerates correctedCitation (.error .emptyEvidence) ↔ _
    simp [correctedCitation, wellShaped]
  | cons path citations =>
    change Tolerates correctedCitation (do
      fs.citationsExist disk (path :: citations)
      AgentFs.put disk (fs.key CANONICAL_OUTPUT) (.text body)) ↔ _
    rw [cite_answered healthy]
    simp [wellShaped]

/-- A call succeeds with a disk of that layout, or meets a fault. -/
def Lands (result : Except FsError LocalDisk) : Option Layout → Prop
  | some layout => ∃ after, result = .ok after ∧ Healthy after ∧ Layout.of after = layout
  | none => ∃ key source, result = .error (.storage key source)

private theorem put_lands (healthy : Healthy disk) (key : String) (value : Content) :
    Lands (AgentFs.put disk key value) ((Layout.of disk).put (keyPath key) (trackedIn value)) := by
  cases passes : passable disk.tree.shape disk.pid disk.tmpCounter (keyPath key) with
  | true =>
    obtain ⟨after, written, through⟩ := put_goes healthy passes value
    rw [put_of through passes]
    refine ⟨after, written, ?_, rfl⟩
    intro tree path
    rw [through.refusal]
    exact healthy tree path
  | false =>
    obtain ⟨source, failed⟩ := put_fails passes value
    have blocked : (Layout.of disk).put (keyPath key) (trackedIn value) = none := by
      unfold Layout.put Layout.passable
      rw [shape_of, if_neg (by simpa [Layout.of] using passes)]
    rw [blocked]
    exact ⟨key, source, failed⟩

private theorem delete_lands (healthy : Healthy disk) (key : String) :
    Lands (AgentFs.stored key (AgentStorage.delete disk key)) ((Layout.of disk).delete (keyPath key)) := by
  have plain : AgentStorage.delete disk key =
      (AgentStorage.delete disk.store key).map fun after => { disk with tree := after.tree } :=
    delete_taken fun tree => healthy tree _
  rw [plain]
  unfold Layout.delete
  rw [shape_of]
  split
  · rename_i clear
    obtain ⟨after, deleted, -, lookups⟩ := @delete_clear disk.store key clear
    rw [raw_ok deleted]
    refine ⟨{ disk with tree := after.tree }, rfl, healthy, ?_⟩
    unfold Layout.of
    congr 1
    funext other
    rw [lookups]
    split <;> rfl
  · rename_i unclear
    obtain ⟨source, failed⟩ := @delete_unclear disk.store key (Bool.eq_false_iff.mpr unclear)
    cases deleted : AgentStorage.delete disk.store key with
    | ok after =>
      rw [deleted] at failed
      cases failed
    | error other => exact ⟨key, other, rfl⟩

private theorem filter_names (entries : List TailEntry) (note : String) :
    (entries.filter (·.filename != note)).map (·.filename) = (entries.map (·.filename)).filter (· != note) := by
  rw [List.filter_map]
  rfl

/-- The recency sidecar follows the note, as long as it can be read and written. -/
private theorem appendToTail_lands (healthy : Healthy disk) (note : String) (now : DateTime) :
    Lands (fs.appendToTail NOTES_TAIL_SUFFIX note now disk)
      ((Layout.of disk).put (sidecar fs) ((note :: ((Layout.of disk).tracked (sidecar fs)).filter (· != note)).take TAIL_K)) := by
  unfold AgentFs.appendToTail
  rw [get_healthy healthy, tracked_of]
  cases clear : disk.tree.shape.clear (sidecar fs) with
  | true =>
    rw [@get_clear disk.store (fs.key NOTES_TAIL_SUFFIX) clear]
    have landed := put_lands healthy (fs.key NOTES_TAIL_SUFFIX) (.tail ⟨(⟨note, now⟩ :: (((disk.tree.read
      (sidecar fs)).bind Content.asTail).getD {}).entries.filter (·.filename != note)).take TAIL_K⟩)
    unfold trackedIn at landed
    change Lands _ (Layout.put _ (sidecar fs) (List.map _ (List.take TAIL_K _))) at landed
    rw [List.map_take, List.map_cons, filter_names] at landed
    exact landed
  | false =>
    obtain ⟨source, failed⟩ := @get_unclear disk.store (fs.key NOTES_TAIL_SUFFIX) clear
    have blocked : ∀ tracked, (Layout.of disk).put (sidecar fs) tracked = none := by
      intro tracked
      unfold Layout.put Layout.passable passable
      rw [shape_of, clear]
      rfl
    rw [blocked, failed]
    exact ⟨_, source, rfl⟩

private theorem removeFromTail_lands (healthy : Healthy disk) (note : String) :
    Lands (fs.removeFromTail NOTES_TAIL_SUFFIX note disk)
      (if (Layout.of disk).shape.clear (sidecar fs) = false then none
      else if note ∈ (Layout.of disk).tracked (sidecar fs) then
        (Layout.of disk).put (sidecar fs) (((Layout.of disk).tracked (sidecar fs)).filter (· != note))
      else some (Layout.of disk)) := by
  unfold AgentFs.removeFromTail
  rw [get_healthy healthy, tracked_of, shape_of]
  split
  · rename_i unclear
    obtain ⟨source, failed⟩ := @get_unclear disk.store (fs.key NOTES_TAIL_SUFFIX) unclear
    rw [failed]
    exact ⟨_, source, rfl⟩
  · rename_i clear
    have readable : disk.tree.shape.clear (sidecar fs) = true := Bool.not_eq_false _ ▸ clear
    rw [@get_clear disk.store (fs.key NOTES_TAIL_SUFFIX) readable]
    change Lands (Except.ok (disk.tree.read (sidecar fs)) >>= _) _
    cases disk.tree.read (sidecar fs) with
    | none => exact ⟨disk, rfl, healthy, rfl⟩
    | some content =>
      simp only [bind, Except.bind, Option.bind_some]
      by_cases known : note ∈ (content.asTail.getD {}).entries.map (·.filename)
      · rw [if_pos known, if_neg (mt length_removed_iff.mp (not_not.mpr known)), ← filter_names]
        exact put_lands healthy (fs.key NOTES_TAIL_SUFFIX) (.tail ⟨_⟩)
      · rw [if_neg known, if_pos (length_removed_iff.mpr known)]
        exact ⟨disk, rfl, healthy, rfl⟩

/-- An operation ends well with a disk of that layout, or meets a fault. -/
def Executes (result : Except FsError Unit × LocalDisk) : Option Layout → Prop
  | some layout => ∃ after, result = (.ok (), after) ∧ Healthy after ∧ Layout.of after = layout
  | none => ∃ failing source, result.1 = .error (.storage failing source)

private theorem settle_executes {result : Except FsError LocalDisk} {layout : Option Layout} (landed : Lands result layout) :
    Executes (AgentFs.settle disk result) layout := by
  cases layout with
  | some layout =>
    obtain ⟨after, rfl, healthy, same⟩ := landed
    exact ⟨after, rfl, healthy, same⟩
  | none =>
    obtain ⟨key, source, rfl⟩ := landed
    exact ⟨key, source, rfl⟩

variable (fs) in
private theorem executeOp_executes (healthy : Healthy disk) (now : DateTime) (key : String) (op : FsOp) :
    Executes (fs.executeOp now key op disk) (operated fs (.of disk) key op) := by
  unfold AgentFs.executeOp operated
  cases op with
  | writeFile path content =>
    have first := put_lands healthy key (.text content)
    change Lands _ ((Layout.of disk).put (keyPath key) []) at first
    simp only
    cases written : (Layout.of disk).put (keyPath key) [] with
    | none =>
      rw [written] at first
      obtain ⟨failing, source, failed⟩ := first
      rw [failed]
      exact ⟨failing, source, rfl⟩
    | some layout =>
      rw [written] at first
      obtain ⟨after, put, healthy', rfl⟩ := first
      rw [put]
      cases stripStart key (fs.key "notes/") with
      | none => exact ⟨after, rfl, healthy', rfl⟩
      | some note => exact settle_executes (appendToTail_lands healthy' note now)
  | deleteFile path =>
    have first := delete_lands healthy key
    simp only
    cases deleted : (Layout.of disk).delete (keyPath key) with
    | none =>
      rw [deleted] at first
      obtain ⟨failing, source, failed⟩ := first
      rw [failed]
      exact ⟨failing, source, rfl⟩
    | some layout =>
      rw [deleted] at first
      obtain ⟨after, gone, healthy', rfl⟩ := first
      rw [gone]
      cases stripStart key (fs.key "notes/") with
      | none => exact ⟨after, rfl, healthy', rfl⟩
      | some note => exact settle_executes (removeFromTail_lands healthy' note)

variable (fs) in
private theorem executeOps_executes (healthy : Healthy disk) (clock : Clock) (reading : Nat)
    (planned : List (String × FsOp)) : Executes (fs.executeOps clock reading planned disk)
      (planned.foldlM (fun layout step => operated fs layout step.1 step.2) (.of disk)) := by
  induction planned generalizing disk reading with
  | nil => exact ⟨disk, rfl, healthy, rfl⟩
  | cons step planned ih =>
    obtain ⟨key, op⟩ := step
    have first := executeOp_executes fs healthy (clock reading) key op
    rw [List.foldlM_cons]
    unfold AgentFs.executeOps
    cases made : operated fs (.of disk) key op with
    | none =>
      rw [made] at first
      obtain ⟨failing, source, failed⟩ := first
      cases executed : fs.executeOp (clock reading) key op disk with
      | mk result after =>
        rw [executed] at failed
        cases failed
        exact ⟨failing, source, rfl⟩
    | some layout =>
      rw [made] at first
      obtain ⟨after, executed, healthy', rfl⟩ := first
      rw [executed]
      exact ih healthy' (reading + 1)

end Calls

theorem rewriteFs_forgiven {fs : AgentFs} {disk : LocalDisk} (healthy : Healthy disk) (clock : Clock) (ops : List FsOp) :
    Forgiven fs disk (.rewriteFs ops) (rewriteFs fs clock ops disk) ↔ wellShaped fs (.of disk) (.rewriteFs ops) = true := by
  simp only [rewriteFs, AgentFs.applyOps, wellShaped]
  cases plan : fs.planOps ops with
  | error error =>
    obtain ⟨fault, -⟩ := planOps_error plan
    refine iff_of_true ⟨correcting_ok.mpr (tolerates_error.mpr fault), ?_⟩ rfl
    exact fun _ _ _ _ _ => rfl
  | ok planned =>
    have spec := executeOps_executes fs healthy clock 0 planned
    simp only [fits]
    cases made : planned.foldlM (fun layout step => operated fs layout step.1 step.2) (Layout.of disk) with
    | some layout =>
      rw [made] at spec
      obtain ⟨after, executed, -⟩ := spec
      rw [executed]
      refine iff_of_true ⟨⟨_, rfl⟩, ?_⟩ rfl
      intro _ _ failed
      exact (failed _ rfl rfl).elim
    | none =>
      rw [made] at spec
      obtain ⟨failing, source, failed⟩ := spec
      cases executed : fs.executeOps clock 0 planned disk with
      | mk result after =>
        rw [executed] at failed
        cases failed
        refine iff_of_false ?_ (by simp)
        rintro ⟨⟨outcome, answered⟩, -⟩
        cases answered

/-- A step on files is answered, and no note of a failed batch is touched, exactly when
the paths of the step agree with the layout of the disk. -/
theorem path_mistakes_forgiven_iff (fs : AgentFs) (render : Content → String)
    (tools : AgentFs → List ToolCall → LocalDisk → Except FsError StepOutcome × LocalDisk) (clock : Clock)
    (disk : LocalDisk) (action : Decision) (healthy : Healthy disk) (files : onFiles action = true) :
    (∃ result, executeStep fs render tools clock action disk = some result ∧ Forgiven fs disk action result) ↔
      wellShaped fs (.of disk) action = true := by
  have single : ∀ {result : Except FsError StepOutcome × LocalDisk}, (∀ ops, action ≠ .rewriteFs ops) →
      ((∃ other, some result = some other ∧ Forgiven fs disk action other) ↔ ∃ outcome, result.1 = .ok outcome) := by
    intro result other
    constructor
    · rintro ⟨_, same, forgiven⟩
      cases same
      exact forgiven.answered
    · exact fun answered => ⟨result, rfl, answered, fun ops rewrite => (other ops rewrite).elim⟩
  cases action with
  | writeOutput body citations =>
    rw [← writeOutput_answered healthy]
    exact single nofun
  | rewriteFs ops =>
    rw [← rewriteFs_forgiven healthy clock]
    constructor
    · rintro ⟨_, same, forgiven⟩
      cases same
      exact forgiven
    · exact fun forgiven => ⟨_, rfl, forgiven⟩
  | read path =>
    refine (single nofun).trans ?_
    rw [correcting_ok, tolerates_map, readFile_answered healthy, ← shape_of]
    rfl
  | list path =>
    refine (single nofun).trans ?_
    rw [correcting_ok, tolerates_map, listDir_answered, ← shape_of]
    rfl
  | search query path =>
    refine (single nofun).trans ?_
    rw [correcting_ok, tolerates_map, search_answered healthy]
  | _ => cases files

theorem path_mistakes_forgiven_iff_missing_note :
    ∃ result, executeStep ⟨""⟩ (fun _ => "") (fun _ _ disk => (.ok (.ok ""), disk)) (fun _ => ⟨0⟩)
      (.rewriteFs [.writeFile "notes/plan.md" "plan", .deleteFile "notes/plan.md", .deleteFile "notes/lost.md"])
      (emptyDisk 7) = some result ∧ Forgiven ⟨""⟩ (emptyDisk 7)
        (.rewriteFs [.writeFile "notes/plan.md" "plan", .deleteFile "notes/plan.md", .deleteFile "notes/lost.md"]) result :=
  (path_mistakes_forgiven_iff _ _ _ _ _ _ (fun _ _ => rfl) rfl).mpr (by decide +kernel)

/-- One agent's steps on its files, from one disk to the next. -/
def fileSteps (fs : AgentFs) (render : Content → String)
    (tools : AgentFs → List ToolCall → LocalDisk → Except FsError StepOutcome × LocalDisk) (clock : Clock) :
    Machine LocalDisk Decision (Except FsError StepOutcome) :=
  ⟨fun disk action => (executeStep fs render tools clock action disk).map fun (result, after) => (after, [result])⟩

/-- The first note of the batch is on disk when the second turns out to lie below a file. -/
theorem batch_below_note_fails :
    ¬ ∀ (render : Content → String)
        (tools : AgentFs → List ToolCall → LocalDisk → Except FsError StepOutcome × LocalDisk)
        (mandate : Mandate) (clock : Clock) (fs : AgentFs) (pid : UInt32) (fresh disk : LocalDisk) (history : List Decision)
        (results : List (Except FsError StepOutcome)) (action : Decision),
        AgentFs.newWithStorage "" mandate clock (emptyDisk pid) = .ok (fs, fresh) →
        (fileSteps fs render tools clock).run fresh history = some (disk, results) → onFiles action = true →
        ∃ result, executeStep fs render tools clock action disk = some result ∧ Forgiven fs disk action result := by
  intro forgiven
  let history : List Decision := [.rewriteFs [.writeFile "notes/plan.md" "plan"]]
  let action : Decision := .rewriteFs [.writeFile "notes/a.md" "a", .writeFile "notes/plan.md/b.md" "b"]
  let tools : AgentFs → List ToolCall → LocalDisk → Except FsError StepOutcome × LocalDisk :=
    fun _ _ disk => (.ok (.ok ""), disk)
  let clock : Clock := fun _ => ⟨0⟩
  obtain ⟨⟨fs, fresh⟩, opened, run⟩ : ∃ opened,
      AgentFs.newWithStorage "" (.new "" ⟨0⟩ none) clock (emptyDisk 7) = .ok opened ∧
        (((fileSteps opened.1 (fun _ => "") tools clock).run opened.2 history).bind fun ran =>
          (executeStep opened.1 (fun _ => "") tools clock action ran.1).map fun result =>
            result.1.toOption.isNone && decide (result.2.tree.files ≠ ran.1.tree.files)) = some true :=
    ⟨_, rfl, by decide +kernel⟩
  obtain ⟨⟨disk, results⟩, ran, failed⟩ := Option.bind_eq_some_iff.mp run
  obtain ⟨result, executed, broken⟩ := Option.map_eq_some_iff.mp failed
  obtain ⟨_, same, ⟨outcome, answered⟩, -⟩ :=
    forgiven _ tools _ clock fs 7 fresh disk history results action opened ran rfl
  rw [executed] at same
  cases same
  rw [answered] at broken
  cases broken

end Coral.Proofs

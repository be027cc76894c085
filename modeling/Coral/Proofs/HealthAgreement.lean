import Coral.Node.HealthFiles

/-! The tracker in memory and `health.json` agree after every call, and at every point of a
call the file reads as before it or as after it. This needs the checks for the file to see
it: `Path::exists` takes an error for an answer. -/

namespace Coral.HealthFiles.Proofs
open Coral.Library Coral.HealthFiles FileScript

variable {formats : Formats}

/-- The live file is there and says this. -/
def Reads (formats : Formats) (disk : Disk) (state : HealthState) : Prop :=
  ∃ bytes, disk.lookup livePath = some (.file bytes) ∧ parseState formats bytes = .ok state

def Archived (formats : Formats) (disk : Disk) (incident : HealthIncident) : Prop :=
  ∃ bytes since, disk.lookup (archivePath formats incident.transitionedAt) = some (.file bytes) ∧
    parseState formats bytes = .ok (.unhealthy since incident)

/-- What `serde_json` makes of the record it reads back. -/
def Legible (formats : Formats) (record : HealthRecord) : Prop :=
  formats.fromSlice (formats.toVecPretty record) = .ok record

/-- The records that a call may write. -/
def written : Call → List HealthRecord
  | .open_ _ now | .markTickSuccess now => [healthyRecord now]
  | .transitionToUnhealthy incident => [unhealthyRecord incident]
  | .beginTick | .recordFailure _ => []

/-- The state that a call means to write. -/
def aim : Call → Option HealthState
  | .open_ _ now | .markTickSuccess now => some (.healthy now)
  | .transitionToUnhealthy incident => some (.unhealthy incident.transitionedAt incident)
  | .beginTick | .recordFailure _ => none

def tmpOf (dir : List String) (name : String) : List String := dir ++ [name ++ ".tmp"]

/-- The live file is as before. Where there is none, the rest is too, up to the temporary file. -/
structure Unmoved (before disk : Disk) : Prop where
  live : disk.lookup livePath = before.lookup livePath
  absent : before.lookup livePath = none → Beside (tmpOf [] HEALTH_FILE) before disk

/-- The live file has not been replaced yet, or it has been replaced by what the call aims
at, and then no incident was lost by it. -/
def Midway (formats : Formats) (call : Call) (before disk : Disk) : Prop :=
  Unmoved before disk ∨
    ∃ state, aim call = some state ∧ Reads formats disk state ∧
      ∀ since incident now, Reads formats before (.unhealthy since incident) → state = .healthy now →
        Archived formats disk incident

def Agrees (formats : Formats) (tracker : Option HealthTracker) (disk : Disk) : Prop :=
  ∀ health, tracker = some health → Reads formats disk health.state

theorem reads_unique {disk : Disk} {first second : HealthState} (one : Reads formats disk first)
    (two : Reads formats disk second) : first = second := by
  obtain ⟨bytes, here, parsed⟩ := one
  obtain ⟨others, there, tells⟩ := two
  have same : bytes = others := Entry.file.inj (Option.some.inj (here.symm.trans there))
  rw [same, tells] at parsed
  exact (Except.ok.inj parsed).symm

theorem Reads.same {before after : Disk} {state : HealthState} (reads : Reads formats before state)
    (same : after.lookup livePath = before.lookup livePath) : Reads formats after state := by
  obtain ⟨bytes, here, parsed⟩ := reads
  exact ⟨bytes, same.trans here, parsed⟩

theorem parseState_healthy {since : DateTime} (legible : Legible formats (healthyRecord since)) :
    parseState formats (formats.toVecPretty (healthyRecord since)) = .ok (.healthy since) := by
  unfold parseState
  rw [legible]
  rfl

theorem parseState_unhealthy {incident : HealthIncident} (legible : Legible formats (unhealthyRecord incident)) :
    parseState formats (formats.toVecPretty (unhealthyRecord incident)) =
      .ok (.unhealthy incident.transitionedAt incident) := by
  unfold parseState
  rw [legible]
  rfl

section AtomicWrite

theorem tmpOf_ne (dir : List String) (name : String) : tmpOf dir name ≠ dir ++ [name] := by
  intro same
  have names := congrArg String.length (List.singleton_inj.mp (List.append_cancel_left same))
  rw [String.length_append] at names
  have : ".tmp".length = 4 := rfl
  omega

/-- The file holds the bytes, its temporary file may be gone, and the rest is as before. -/
structure Landed (dir : List String) (name : String) (bytes : Bytes) (before after : Disk) : Prop where
  file : after.lookup (dir ++ [name]) = some (.file bytes)
  rest : ∀ other, other ≠ dir ++ [name] → other ≠ tmpOf dir name → after.lookup other = before.lookup other

def Wrote (dir : List String) (name : String) (bytes : Bytes) (before : Disk) :
    Except HealthError Unit → Disk → Prop
  | .ok (), after => Landed dir name bytes before after
  | .error _, after => Beside (tmpOf dir name) before after

theorem atomicWrite_holds {crash : Disk → Prop} {dir : List String} {name : String} {bytes : Bytes} {before : Disk}
    (kept : ∀ after, Beside (tmpOf dir name) before after → crash after)
    (landed : ∀ after, Landed dir name bytes before after → crash after) :
    Holds crash (Wrote dir name bytes before) (atomicWrite (dir ++ [name]) bytes) before := by
  unfold atomicWrite
  simp only [List.getLast?_concat, List.dropLast_concat]
  refine .write kept ?_ ?_
  · intro written beside file
    refine .rename (kept written beside) ?_ ?_
    · intro moved renamed
      obtain ⟨-, lookups⟩ := FileTree.move_ok file renamed
      have ends : Landed dir name bytes before moved := by
        refine ⟨by rw [lookups, if_pos rfl], ?_⟩
        intro other apart temporary
        have elsewhere : other ≠ dir ++ [name ++ ".tmp"] := temporary
        rw [lookups, if_neg apart, if_neg elsewhere]
        exact beside.rest other temporary
      exact .done (landed moved ends) ends
    · intro errno
      exact .done (kept written beside) beside
  · intro errno partway beside
    exact .done (kept partway beside) beside

theorem atomicWrite_run {dir : List String} {name : String} {before : Disk} (bytes : Bytes)
    (parent : before.lookup dir = some .dir) (target : before.lookup (dir ++ [name]) ≠ some .dir)
    (free : before.lookup (tmpOf dir name) ≠ some .dir) :
    ∃ after, (atomicWrite (dir ++ [name]) bytes).run before = (.ok (), after) ∧ Landed dir name bytes before after ∧
      after.lookup (tmpOf dir name) = none := by
  have parentOf : ∀ other, (dir ++ [other]).dropLast = dir := fun _ => List.dropLast_concat
  obtain ⟨written, created⟩ := FileTree.create_succeeds free ((congrArg _ (parentOf _)).trans parent) bytes
  have lookups := FileTree.create_ok created
  have inside : dir ≠ tmpOf dir name := by
    intro same
    have lengths := congrArg List.length same
    simp [tmpOf] at lengths
  obtain ⟨moved, renamed⟩ : ∃ moved, written.move (tmpOf dir name) (dir ++ [name]) = .ok moved := by
    have file : written.lookup (tmpOf dir name) = some (.file bytes) := (lookups _).trans (if_pos rfl)
    refine FileTree.move_succeeds file ?_ ?_
    · rw [lookups, if_neg (tmpOf_ne dir name).symm]
      exact target
    · rw [parentOf, lookups, if_neg inside]
      exact parent
  have ends := (FileTree.move_ok ((lookups _).trans (if_pos rfl)) renamed).2
  refine ⟨moved, ?_, ⟨?_, ?_⟩, ?_⟩
  · unfold atomicWrite
    simp only [List.getLast?_concat, List.dropLast_concat]
    change FileTree.create before (dir ++ [name ++ ".tmp"]) bytes = _ at created
    change FileTree.move written (dir ++ [name ++ ".tmp"]) _ = _ at renamed
    simp only [FileScript.run, created, renamed, orIo]
  · rw [ends, if_pos rfl]
  · intro other apart temporary
    rw [ends, if_neg apart, if_neg temporary, lookups, if_neg temporary]
  · rw [ends, if_neg (tmpOf_ne dir name), if_pos rfl]

theorem atomicWrite_blocked {dir : List String} {name : String} {before : Disk} (bytes : Bytes)
    (blocked : before.lookup (tmpOf dir name) = some .dir) :
    (atomicWrite (dir ++ [name]) bytes).run before = (.error (.io (tmpOf dir name) .isADirectory), before) := by
  have refused : before.create (tmpOf dir name) bytes = .error .isADirectory := by
    unfold FileTree.create
    rw [dif_pos (FileTree.shape_dir_iff.mpr blocked)]
  unfold atomicWrite
  simp only [List.getLast?_concat, List.dropLast_concat]
  change FileTree.create before (dir ++ [name ++ ".tmp"]) bytes = _ at refused
  simp only [FileScript.run, refused, orIo]
  rfl

end AtomicWrite

theorem livePath_ne_tmp : livePath ≠ tmpOf [] HEALTH_FILE := by decide

theorem archivePath_ne {other : DateTime} : archivePath formats other ≠ livePath ∧
    archivePath formats other ≠ tmpOf [] HEALTH_FILE := by
  refine ⟨?_, ?_⟩ <;>
  · intro same
    cases (List.cons.inj same).2

/-- The live file is replaced as a whole. -/
theorem writeLive_holds {crash : Disk → Prop} {record : HealthRecord} {before : Disk}
    (kept : ∀ after, Beside (tmpOf [] HEALTH_FILE) before after → crash after)
    (landed : ∀ after, Landed [] HEALTH_FILE (formats.toVecPretty record) before after → crash after) :
    Holds crash (Wrote [] HEALTH_FILE (formats.toVecPretty record) before) (writeLive formats record) before :=
  atomicWrite_holds kept landed

theorem Landed.reads {record : HealthRecord} {before after : Disk} {state : HealthState}
    (landed : Landed [] HEALTH_FILE (formats.toVecPretty record) before after)
    (parsed : parseState formats (formats.toVecPretty record) = .ok state) : Reads formats after state :=
  ⟨_, landed.file, parsed⟩

theorem live_beside {before after : Disk} (beside : Beside (tmpOf [] HEALTH_FILE) before after) :
    after.lookup livePath = before.lookup livePath := beside.rest _ livePath_ne_tmp

theorem unmoved_beside {before after : Disk} (beside : Beside (tmpOf [] HEALTH_FILE) before after) :
    Unmoved before after := ⟨live_beside beside, fun _ => beside⟩

theorem unmoved_refl (disk : Disk) : Unmoved disk disk := ⟨rfl, fun _ => .refl _ _⟩

theorem unmoved_present {before after : Disk} {bytes : Bytes} (present : before.lookup livePath = some (.file bytes))
    (same : after.lookup livePath = before.lookup livePath) : Unmoved before after :=
  ⟨same, fun absent => by cases present.symm.trans absent⟩

/-- The archived copy is what the live file holds, and the live file stays. -/
theorem archiveCurrent_holds {before : Disk} {bytes : Bytes} (transitionedAt : DateTime)
    (live : before.lookup livePath = some (.file bytes)) :
    Holds (fun after => after.lookup livePath = before.lookup livePath)
      (fun result after => after.lookup livePath = before.lookup livePath ∧
        (result = .ok () → after.lookup (archivePath formats transitionedAt) = some (.file bytes)))
      (archiveCurrent formats transitionedAt) before := by
  unfold archiveCurrent
  refine .exists_ rfl ?_
  have present : (before.lookup livePath).isSome = true := by rw [live]; rfl
  rw [present]
  refine .createDirAll rfl ?_ ?_
  · intro made created
    have same : made.lookup livePath = before.lookup livePath := by
      rw [(FileTree.createDirAll_ok created).2, if_neg (by decide)]
    have found : made.readFile livePath = .ok bytes := by
      unfold FileTree.readFile
      rw [FileTree.resolve_file (same.trans live)]
    refine .read same ?_ ?_
    · rw [found]
      have stays : ∀ after : Disk, (∀ other, other ≠ archivePath formats transitionedAt →
          other ≠ tmpOf [ARCHIVE_DIR] (formats.stamp transitionedAt ++ ".json") →
          after.lookup other = made.lookup other) → after.lookup livePath = before.lookup livePath := by
        intro after rest
        rw [rest livePath archivePath_ne.1.symm (fun path => by cases (List.cons.inj path).2), same]
      have wrote : Holds (fun after : Disk => after.lookup livePath = before.lookup livePath)
          (Wrote [ARCHIVE_DIR] (formats.stamp transitionedAt ++ ".json") bytes made)
          (atomicWrite (archivePath formats transitionedAt) bytes) made :=
        atomicWrite_holds (fun after beside => stays after fun other _ apart => beside.rest other apart)
          (fun after landed => stays after landed.rest)
      refine wrote.weaken (fun _ kept => kept) ?_
      · intro result after wrote
        cases result with
        | ok _ => exact ⟨stays after wrote.rest, fun _ => wrote.file⟩
        | error error =>
          refine ⟨stays after fun other _ apart => wrote.rest other apart, ?_⟩
          intro impossible
          cases impossible
    · intro errno
      refine .done same ⟨same, ?_⟩
      intro impossible
      cases impossible
  · intro errno
    refine .done rfl ⟨rfl, ?_⟩
    intro impossible
    cases impossible

theorem agrees_some {disk : Disk} {health : HealthTracker} (reads : Reads formats disk health.state) :
    Agrees formats (some health) disk := by
  intro other same
  rw [← Option.some.inj same]
  exact reads

theorem agrees_none (disk : Disk) : Agrees formats none disk := by
  intro health impossible
  cases impossible

/-- What can be read is there. -/
theorem lookup_of_readFile {disk : Disk} {path : List String} {bytes : Bytes}
    (found : disk.readFile path = .ok bytes) : disk.lookup path = some (.file bytes) := by
  unfold FileTree.readFile FileTree.resolve at found
  cases there : disk.lookup path with
  | none =>
    rw [there] at found
    dsimp only at found
    split at found <;> rename_i blocked <;> split at blocked <;> cases blocked <;> cases found
  | some entry =>
    rw [there] at found
    cases entry with
    | dir => cases found
    | file content => cases found; rfl

theorem transition_holds {before : Disk} {health : HealthTracker} {incident : HealthIncident}
    (legible : Legible formats (unhealthyRecord incident)) (agrees : Reads formats before health.state) :
    Holds (Midway formats (.transitionToUnhealthy incident) before) (fun answer after => Reads formats after answer.2.state)
      (transitionToUnhealthy formats health incident) before := by
  have reads : ∀ after, Landed [] HEALTH_FILE (formats.toVecPretty (unhealthyRecord incident)) before after →
      Reads formats after (.unhealthy incident.transitionedAt incident) :=
    fun after landed => landed.reads (parseState_unhealthy legible)
  have landed : ∀ after, Landed [] HEALTH_FILE (formats.toVecPretty (unhealthyRecord incident)) before after →
      Midway formats (.transitionToUnhealthy incident) before after := by
    intro after landed
    refine .inr ⟨_, rfl, reads after landed, ?_⟩
    intro _ _ _ _ impossible
    cases impossible
  refine (writeLive_holds (fun after beside => .inl (unmoved_beside beside)) landed).bind ?_
  intro result after _ wrote
  cases result with
  | ok _ =>
    exact .done (landed after wrote) (reads after wrote)
  | error error =>
    exact .done (.inl (unmoved_beside wrote)) (agrees.same (live_beside wrote))

theorem markTickSuccess_holds {before : Disk} {health : HealthTracker} {now : DateTime}
    (legible : Legible formats (healthyRecord now)) (agrees : Reads formats before health.state) :
    Holds (Midway formats (.markTickSuccess now) before) (fun answer after => Reads formats after answer.2.state)
      (markTickSuccess formats health now) before := by
  unfold markTickSuccess
  cases state : health.state with
  | healthy since =>
    exact .done (.inl (unmoved_refl _)) (agrees)
  | unhealthy since incident =>
    have live := agrees
    rw [state] at live
    obtain ⟨bytes, file, parsed⟩ := live
    have archive := @archiveCurrent_holds formats _ _ incident.transitionedAt file
    refine (archive.weaken (fun _ same => .inl (unmoved_present file same)) (fun _ _ => id)).bind ?_
    rintro result between _ ⟨same, archived⟩
    cases result with
    | error error =>
      exact .done (.inl (unmoved_present file same)) (agrees.same same)
    | ok _ =>
      have landed : ∀ after, Landed [] HEALTH_FILE (formats.toVecPretty (healthyRecord now)) between after →
          Midway formats (.markTickSuccess now) before after := by
        intro after landed
        refine .inr ⟨_, rfl, landed.reads (parseState_healthy legible), ?_⟩
        intro began other _ reads _
        have known := reads_unique ⟨bytes, file, parsed⟩ reads
        obtain ⟨-, rfl⟩ := HealthState.unhealthy.inj known
        refine ⟨bytes, since, ?_, parsed⟩
        rw [landed.rest _ archivePath_ne.1 archivePath_ne.2]
        exact archived rfl
      refine (writeLive_holds (fun after beside => .inl (unmoved_present file ((live_beside beside).trans same))) landed).bind ?_
      intro result after _ wrote
      cases result with
      | ok _ =>
        exact .done (landed after wrote) (wrote.reads (parseState_healthy legible))
      | error error =>
        exact .done (.inl (unmoved_present file ((live_beside wrote).trans same))) (agrees.same ((live_beside wrote).trans same))

theorem openTracker_holds {before : Disk} {budget : RetryBudget} {now : DateTime}
    (legible : Legible formats (healthyRecord now)) :
    Holds (Midway formats (.open_ budget now) before) (fun opened => Agrees formats opened.toOption)
      (openTracker formats budget now) before := by
  unfold openTracker
  refine .exists_ (.inl (unmoved_refl _)) ?_
  split
  next present =>
    refine .read (.inl (unmoved_refl _)) ?_ ?_
    · cases found : before.readFile livePath with
      | error errno =>
        exact .done (.inl (unmoved_refl _)) (agrees_none _)
      | ok bytes =>
        have live := lookup_of_readFile found
        unfold orIo
        dsimp only
        split
        next state parsed =>
          exact .done (.inl (unmoved_refl _)) (agrees_some ⟨bytes, live, parsed⟩)
        next error _ =>
          exact .done (.inl (unmoved_refl _)) (agrees_none _)
    · intro errno
      exact .done (.inl (unmoved_refl _)) (agrees_none _)
  next absent =>
    have missing : before.lookup livePath = none := by
      rw [Bool.not_eq_true, Option.isSome_eq_false_iff, Option.isNone_iff_eq_none] at absent
      exact absent
    have landed : ∀ after, Landed [] HEALTH_FILE (formats.toVecPretty (healthyRecord now)) before after →
        Midway formats (.open_ budget now) before after := by
      intro after landed
      refine .inr ⟨_, rfl, landed.reads (parseState_healthy legible), ?_⟩
      rintro _ _ _ ⟨bytes, there, -⟩ _
      cases missing.symm.trans there
    refine (writeLive_holds (fun after beside => .inl (unmoved_beside beside)) landed).bind ?_
    intro result after _ wrote
    cases result with
    | ok _ =>
      exact .done (landed after wrote) (agrees_some (wrote.reads (parseState_healthy legible)))
    | error error =>
      exact .done (.inl (unmoved_beside wrote)) (agrees_none _)

theorem call_holds {call : Call} {tracker : Option HealthTracker} {before : Disk}
    {script : Script (Option HealthTracker)} (legible : ∀ record ∈ written call, Legible formats record)
    (agrees : Agrees formats tracker before) (begins : call.script formats tracker = some script) :
    Holds (Midway formats call before) (Agrees formats) script before := by
  have still : Midway formats call before before := .inl (unmoved_refl before)
  cases call with
  | open_ budget now =>
    cases begins
    refine (openTracker_holds (legible _ List.mem_cons_self)).bind ?_
    exact fun opened after kept agreed => .done kept agreed
  | beginTick =>
    cases tracker with
    | none => cases begins
    | some health => cases begins; exact .done still (agrees_some (agrees health rfl))
  | recordFailure kind =>
    cases tracker with
    | none => cases begins
    | some health =>
      cases begins
      refine .done still (agrees_some ?_)
      cases kind <;> exact agrees health rfl
  | transitionToUnhealthy incident =>
    cases tracker with
    | none => cases begins
    | some health =>
      cases begins
      refine (transition_holds (legible _ List.mem_cons_self) (agrees health rfl)).bind ?_
      exact fun answer after kept reads => .done kept (agrees_some reads)
  | markTickSuccess now =>
    cases tracker with
    | none => cases begins
    | some health =>
      cases begins
      refine (markTickSuccess_holds (legible _ List.mem_cons_self) (agrees health rfl)).bind ?_
      exact fun answer after kept reads => .done kept (agrees_some reads)

/-- A tracker that is told whether its file could be written gives this answer too. -/
def Answered (told : Bool → Option HealthTracker) (health : HealthTracker) : Answer → Prop
  | (.ok (), after) => told true = some after
  | (.error _, after) => told false = none ∧ after = health

theorem transition_answered (health : HealthTracker) (incident : HealthIncident) (before : Disk) :
    Holds (fun _ => True) (fun answer _ => Answered (health.transitionToUnhealthy incident) health answer)
      (transitionToUnhealthy formats health incident) before := by
  refine (Holds.trivial (writeLive formats (unhealthyRecord incident)) before).bind ?_
  intro result after _ _
  cases result with
  | ok _ => exact .done trivial rfl
  | error error => exact .done trivial ⟨rfl, rfl⟩

theorem markTickSuccess_answered (health : HealthTracker) (now : DateTime) (before : Disk) :
    Holds (fun _ => True) (fun answer _ => Answered (health.markTickSuccess now) health answer)
      (markTickSuccess formats health now) before := by
  unfold markTickSuccess
  cases state : health.state with
  | healthy since =>
    refine .done trivial ?_
    unfold Answered HealthTracker.markTickSuccess
    rw [state]
  | unhealthy since incident =>
    have told : ∀ written, health.markTickSuccess now written =
        if written then some { health.beginTick with state := .healthy now } else none := by
      intro written
      unfold HealthTracker.markTickSuccess
      rw [state]
    refine (Holds.trivial (archiveCurrent formats incident.transitionedAt) before).bind ?_
    intro archived between _ _
    cases archived with
    | error error => exact .done trivial ⟨told false, rfl⟩
    | ok _ =>
      refine (Holds.trivial (writeHealthy formats now) between).bind ?_
      intro result after _ _
      cases result with
      | ok _ => exact .done trivial (told true)
      | error error => exact .done trivial ⟨told false, rfl⟩

/-- Between calls the two agree, and a call that has begun keeps to its steps. -/
structure Inv (formats : Formats) (process : Process) : Prop where
  idle : process.running = none → Agrees formats process.tracker process.disk
  busy : ∀ running, process.running = some running →
    Holds (Midway formats running.call running.before) (Agrees formats) running.script process.disk

/-- A check for the file does not fail while the file is there. -/
def Seen (process : Process) : ProcessEvent → Prop
  | .file event => ∀ running, process.running = some running → Sighted running.script process.disk event
  | .call _ | .return_ | .crash => True

instance (process : Process) : (event : ProcessEvent) → Decidable (Seen process event)
  | .file event => inferInstanceAs (Decidable (∀ running ∈ process.running, Sighted running.script process.disk event))
  | .call _ | .return_ | .crash => isTrue trivial

def writtenBy : ProcessEvent → List HealthRecord
  | .call call => written call
  | .file _ | .return_ | .crash => []

theorem Inv.step {process next : Process} {event : ProcessEvent} (inv : Inv formats process) (seen : Seen process event)
    (legible : ∀ record ∈ writtenBy event, Legible formats record) (stepped : process.step formats event = some next) :
    Inv formats next := by
  cases event with
  | call call =>
    cases running : process.running with
    | some _ => simp only [Process.step, running] at stepped; cases stepped
    | none =>
      simp only [Process.step, running, Option.bind_eq_bind, Option.bind_eq_some_iff] at stepped
      obtain ⟨script, begins, same⟩ := stepped
      cases same
      refine ⟨fun impossible => (by cases impossible), ?_⟩
      rintro _ ⟨⟩
      exact call_holds legible (inv.idle running) begins
  | file event =>
    simp only [Process.step, Option.bind_eq_bind, Option.bind_eq_some_iff, Prod.exists] at stepped
    obtain ⟨running, here, script, disk, moved, same⟩ := stepped
    cases same
    refine ⟨fun impossible => (by cases impossible), ?_⟩
    rintro _ ⟨⟩
    exact (inv.busy running here).step (seen running here) moved
  | return_ =>
    simp only [Process.step] at stepped
    split at stepped
    next call before tracker value here =>
      cases stepped
      refine ⟨fun _ => (inv.busy _ here).returned, ?_⟩
      intro _ impossible
      cases impossible
    next => cases stepped
  | crash =>
    cases stepped
    refine ⟨fun _ => agrees_none _, ?_⟩
    intro _ impossible
    cases impossible

theorem Inv.run {process final : Process} {events : List ProcessEvent} {outputs : List Unit} (inv : Inv formats process)
    (seen : (processes formats).Along Seen process events)
    (legible : ∀ event ∈ events, ∀ record ∈ writtenBy event, Legible formats record)
    (ran : (processes formats).run process events = some (final, outputs)) : Inv formats final := by
  induction events generalizing process outputs with
  | nil => cases ran; exact inv
  | cons event events ih =>
    obtain ⟨middle, first, rest, stepped, continued, -⟩ := (processes formats).run_cons.mp ran
    obtain ⟨sees, later⟩ := ((processes formats).along_cons stepped).mp seen
    obtain ⟨next, moved, same⟩ := Option.map_eq_some_iff.mp stepped
    cases same
    rw [List.forall_mem_cons] at legible
    exact ih (inv.step sees legible.1 moved) later legible.2 continued

theorem inv_start (disk : Disk) : Inv formats { disk } := by
  refine ⟨fun _ => agrees_none disk, ?_⟩
  intro _ impossible
  cases impossible

section Reopening

theorem reopened_of_reads {disk : Disk} {state : HealthState} (reads : Reads formats disk state) (budget : RetryBudget)
    (now : DateTime) : reopened formats disk budget now = .ok state := by
  obtain ⟨bytes, live, parsed⟩ := reads
  have found : disk.readFile livePath = .ok bytes := by
    unfold FileTree.readFile
    rw [FileTree.resolve_file live]
  unfold reopened openTracker
  simp only [FileScript.run, live, Option.isSome_some, if_true, found, orIo, parsed]
  rfl

theorem reopened_present {before disk : Disk} {entry : Entry Bytes} (here : before.lookup livePath = some entry)
    (there : disk.lookup livePath = some entry) (budget : RetryBudget) (now : DateTime) :
    reopened formats disk budget now = reopened formats before budget now := by
  have same : disk.readFile livePath = before.readFile livePath := by
    unfold FileTree.readFile FileTree.resolve
    rw [here, there]
  unfold reopened openTracker
  simp only [FileScript.run, here, there, Option.isSome_some, if_true, same]
  cases before.readFile livePath with
  | error errno => rfl
  | ok bytes =>
    simp only [orIo]
    split <;> rfl

/-- Where there is no file a first one is written, unless a directory is in the way. -/
theorem reopened_absent {disk : Disk} (absent : disk.lookup livePath = none) (budget : RetryBudget) (now : DateTime) :
    reopened formats disk budget now =
      if disk.lookup (tmpOf [] HEALTH_FILE) = some .dir then .error (.io (tmpOf [] HEALTH_FILE) .isADirectory)
      else .ok (.healthy now) := by
  have first : (writeHealthy formats now).run disk = (atomicWrite ([] ++ [HEALTH_FILE]) _).run disk := rfl
  unfold reopened openTracker
  simp only [FileScript.run, absent, Option.isSome_none, Bool.false_eq_true, if_false, FileScript.run_bind]
  by_cases blocked : disk.lookup (tmpOf [] HEALTH_FILE) = some .dir
  · rw [if_pos blocked, first, atomicWrite_blocked _ blocked]
    rfl
  · have vacant : disk.lookup ([] ++ [HEALTH_FILE]) ≠ some .dir := by
      intro impossible
      cases absent.symm.trans impossible
    obtain ⟨after, wrote, -⟩ := atomicWrite_run (formats.toVecPretty (healthyRecord now)) disk.lookup_root vacant blocked
    rw [if_neg blocked, first, wrote]
    rfl

theorem reopened_unmoved {before disk : Disk} (unmoved : Unmoved before disk) (budget : RetryBudget) (now : DateTime) :
    reopened formats disk budget now = reopened formats before budget now := by
  cases here : before.lookup livePath with
  | some entry => exact reopened_present here (unmoved.live.trans here) budget now
  | none =>
    have beside := unmoved.absent here
    rw [reopened_absent here, reopened_absent (unmoved.live.trans here)]
    rcases beside.here with same | ⟨free, content, file⟩
    · rw [same]
    · rw [if_neg free, if_neg (by rw [file]; intro impossible; cases impossible)]

/-- Only a file says that the agent is unhealthy. -/
theorem reads_of_reopened {disk : Disk} {budget : RetryBudget} {now since : DateTime} {incident : HealthIncident}
    (found : reopened formats disk budget now = .ok (.unhealthy since incident)) :
    Reads formats disk (.unhealthy since incident) := by
  cases here : disk.lookup livePath with
  | none =>
    rw [reopened_absent here] at found
    split at found <;> cases found
  | some entry =>
    cases read : disk.readFile livePath with
    | error errno =>
      unfold reopened openTracker at found
      simp only [FileScript.run, here, Option.isSome_some, if_true, read, orIo] at found
      cases found
    | ok bytes =>
      refine ⟨bytes, lookup_of_readFile read, ?_⟩
      unfold reopened openTracker at found
      simp only [FileScript.run, here, Option.isSome_some, if_true, read, orIo] at found
      cases parsed : parseState formats bytes with
      | error error =>
        rw [parsed] at found
        cases found
      | ok state =>
        rw [parsed] at found
        exact found

end Reopening

/-- What re-opening finds at a point of a run. -/
structure Agreed (formats : Formats) (process : Process) : Prop where
  returned : process.running = none → ∀ health, process.tracker = some health → ∀ budget now,
    reopened formats process.disk budget now = .ok health.state
  interrupted : ∀ running, process.running = some running → ∀ budget now,
    reopened formats process.disk budget now = reopened formats running.before budget now ∨
      ∃ state, aim running.call = some state ∧ reopened formats process.disk budget now = .ok state
  archived : ∀ running, process.running = some running → ∀ budget now since incident healthySince,
    reopened formats running.before budget now = .ok (.unhealthy since incident) →
    reopened formats process.disk budget now = .ok (.healthy healthySince) → Archived formats process.disk incident

theorem Inv.agreed {process : Process} (inv : Inv formats process) : Agreed formats process := by
  refine ⟨?_, ?_, ?_⟩
  · intro idle health tracked budget now
    exact reopened_of_reads (inv.idle idle health tracked) budget now
  · intro running here budget now
    rcases (inv.busy running here).kept with unmoved | ⟨state, aimed, reads, -⟩
    · exact .inl (reopened_unmoved unmoved budget now)
    · exact .inr ⟨state, aimed, reopened_of_reads reads budget now⟩
  · intro running here budget now since incident healthySince before after
    rcases (inv.busy running here).kept with unmoved | ⟨state, -, reads, archived⟩
    · rw [reopened_unmoved unmoved, before] at after
      cases after
    · rw [reopened_of_reads reads] at after
      exact archived since incident healthySince (reads_of_reopened before) (Except.ok.inj after)

/-- Memory and disk agree in every run in which the checks for the file see it. -/
theorem health_agrees {disk : Disk} {events : List ProcessEvent} {final : Process} {outputs : List Unit}
    (seen : (processes formats).Along Seen { disk } events)
    (legible : ∀ event ∈ events, ∀ record ∈ writtenBy event, Legible formats record)
    (ran : (processes formats).run { disk } events = some (final, outputs)) : Agreed formats final :=
  ((inv_start disk).run seen legible ran).agreed

section Blind

/-- A check that fails makes `open` take an unhealthy agent for a new one. -/
theorem blind_open {disk : Disk} {since now : DateTime} {incident : HealthIncident} {budget : RetryBudget}
    (reads : Reads formats disk (.unhealthy since incident)) (free : disk.lookup (tmpOf [] HEALTH_FILE) ≠ some .dir)
    (unarchived : disk.lookup (archivePath formats incident.transitionedAt) = none)
    (legible : Legible formats (healthyRecord now)) (errno : Errno) :
    ∃ final, (processes formats).run { disk }
        [.call (.open_ budget now), .file (.fail errno), .file .proceed, .file .proceed] = some (final, []) ∧
      ¬ Agreed formats final := by
  obtain ⟨bytes, live, parsed⟩ := reads
  obtain ⟨written, created⟩ :=
    FileTree.create_succeeds free disk.lookup_root (formats.toVecPretty (healthyRecord now))
  have lookups := FileTree.create_ok created
  have file : written.lookup (tmpOf [] HEALTH_FILE) = some (.file (formats.toVecPretty (healthyRecord now))) :=
    (lookups _).trans (if_pos rfl)
  obtain ⟨moved, renamed⟩ : ∃ moved, written.move (tmpOf [] HEALTH_FILE) livePath = .ok moved := by
    refine FileTree.move_succeeds file ?_ written.lookup_root
    rw [lookups, if_neg livePath_ne_tmp, live]
    intro impossible
    cases impossible
  have ends := (FileTree.move_ok file renamed).2
  let script : Script (Option HealthTracker) := .done (some { budget, state := .healthy now })
  refine ⟨{ disk := moved, running := some ⟨.open_ budget now, disk, none, script⟩ }, ?_, ?_⟩
  · change disk.create [HEALTH_FILE ++ ".tmp"] _ = _ at created
    change written.move [HEALTH_FILE ++ ".tmp"] [HEALTH_FILE] = _ at renamed
    simp [processes, Machine.run, Process.step, Call.script, openTracker, writeHealthy, writeLive, atomicWrite, livePath,
      FileScript.bind, FileScript.step, created, renamed, orIo, script, Except.toOption]
  · intro agreed
    have healed : Reads formats moved (.healthy now) := by
      refine ⟨_, (ends _).trans (if_pos rfl), parseState_healthy legible⟩
    obtain ⟨others, began, archived, -⟩ := agreed.archived _ rfl budget now since incident now
      (reopened_of_reads ⟨bytes, live, parsed⟩ budget now) (reopened_of_reads healed budget now)
    rw [show FileTree.lookup moved _ = _ from ends _, if_neg archivePath_ne.1, if_neg archivePath_ne.2, lookups,
      if_neg archivePath_ne.2, unarchived] at archived
    cases archived

end Blind

section Timeout

private def timeout : HealthIncident where
  failing := ⟨.inference, .null⟩
  retryTrail := []
  lastError := "timeout"
  transitionedAt := ⟨0⟩

private def unhealthyText : String :=
  "\x7b\n  \"version\": 1,\n  \"state\": \"Unhealthy\",\n  \"since\": \"1970-01-01T00:00:00Z\",\n  \"incident\": " ++
  "\x7b\n    \"failing\": \x7b\n      \"type\": \"Inference\",\n      \"details\": null\n    \x7d,\n" ++
  "    \"retry_trail\": [],\n    \"last_error\": \"timeout\",\n" ++
  "    \"transitioned_at\": \"1970-01-01T00:00:00Z\"\n  \x7d\n\x7d"

private def healthyText : String :=
  "\x7b\n  \"version\": 1,\n  \"state\": \"Healthy\",\n  \"since\": \"1970-01-01T00:01:00Z\"\n\x7d"

private def utf8 (text : String) : Bytes := text.toByteArray.data.toList

private theorem utf8_injective : Function.Injective utf8 :=
  fun _ _ same => String.toByteArray_inj.mp (ByteArray.ext (Array.toList_inj.mp same))

private def minute : DateTime := ⟨60000000000⟩

/-- As far as these two records go. -/
private def twoRecords : Formats where
  toVecPretty record := utf8 (if record = unhealthyRecord timeout then unhealthyText else healthyText)
  fromSlice bytes :=
    if bytes = utf8 unhealthyText then .ok (unhealthyRecord timeout)
    else if bytes = utf8 healthyText then .ok (healthyRecord minute)
    else .error "expected value at line 1 column 1"
  stamp _ := "1970-01-01T00:00:00Z"

private theorem legible_timeout : Legible twoRecords (unhealthyRecord timeout) := by
  unfold Legible twoRecords
  simp only [if_true]

private theorem legible_minute : Legible twoRecords (healthyRecord minute) := by
  have apart : utf8 healthyText ≠ utf8 unhealthyText := utf8_injective.ne (by decide)
  have other : healthyRecord minute ≠ unhealthyRecord timeout := by
    intro same
    cases congrArg HealthRecord.state same
  unfold Legible twoRecords
  simp only [if_neg other, if_neg apart, if_true]

/-- A disk with nothing but the unhealthy record. -/
private theorem ailing : ∃ disk : Disk, Reads twoRecords disk (.unhealthy ⟨0⟩ timeout) ∧
    disk.lookup (tmpOf [] HEALTH_FILE) ≠ some .dir ∧ disk.lookup (archivePath twoRecords timeout.transitionedAt) = none := by
  have vacant : ∀ path : List String, path ≠ [] → (FileTree.empty : Disk).lookup path = none :=
    fun path proper => (FileTree.lookup_empty path).trans (if_neg proper)
  obtain ⟨disk, created⟩ := FileTree.create_succeeds (by rw [vacant livePath (by decide)]; intro impossible; cases impossible)
    (FileTree.lookup_root _) (twoRecords.toVecPretty (unhealthyRecord timeout))
  have lookups := FileTree.create_ok created
  refine ⟨disk, ⟨_, (lookups _).trans (if_pos rfl), parseState_unhealthy legible_timeout⟩, ?_, ?_⟩
  · rw [lookups, if_neg livePath_ne_tmp.symm, vacant _ (by decide)]
    intro impossible
    cases impossible
  · rw [lookups, if_neg archivePath_ne.1, vacant _ (by intro same; cases same)]

/-- The check of an `open` fails, and the incident is gone. -/
theorem open_heals : ∃ (disk : Disk) (events : List ProcessEvent) (final : Process),
    (∀ event ∈ events, ∀ record ∈ writtenBy event, Legible twoRecords record) ∧
    Reads twoRecords disk (.unhealthy ⟨0⟩ timeout) ∧
    (processes twoRecords).run { disk } events = some (final, []) ∧ ¬ Agreed twoRecords final := by
  obtain ⟨disk, reads, free, unarchived⟩ := ailing
  obtain ⟨final, ran, disagrees⟩ := @blind_open _ _ _ _ _ {} reads free unarchived legible_minute .notFound
  refine ⟨disk, _, final, ?_, reads, ran, disagrees⟩
  simp only [List.forall_mem_cons, writtenBy, written]
  refine ⟨⟨legible_minute, ?_⟩, ?_⟩ <;> simp

private def ailingDisk : Disk :=
  ((FileTree.empty : Disk).create livePath (twoRecords.toVecPretty (unhealthyRecord timeout))).toOption.getD .empty

/-- The process stops while it writes the archive, then fails to write the live file, then recovers. -/
private def recovery : List ProcessEvent :=
  [.call (.open_ {} minute), .file .proceed, .file .proceed, .return_,
    .call (.markTickSuccess minute), .file .proceed, .file .proceed, .file .proceed, .file (.tear []), .crash,
    .call (.open_ {} minute), .file .proceed, .file .proceed, .return_,
    .call (.markTickSuccess minute), .file .proceed, .file .proceed, .file .proceed, .file .proceed, .file .proceed,
    .file (.fail .notFound), .return_,
    .call (.markTickSuccess minute), .file .proceed, .file .proceed, .file .proceed, .file .proceed, .file .proceed,
    .file .proceed, .file .proceed, .return_]

/-- An unhealthy agent recovers after a crash and a fault, and its file with it. -/
theorem health_agrees_recovered : ∃ (final : Process) (outputs : List Unit),
    Reads twoRecords ailingDisk (.unhealthy ⟨0⟩ timeout) ∧
    (processes twoRecords).run { disk := ailingDisk } recovery = some (final, outputs) ∧
    final.tracker.map (·.state) = some (.healthy minute) ∧ Agreed twoRecords final := by
  have evaluated : ((processes twoRecords).run { disk := ailingDisk } recovery).any
      (fun ran => ran.1.tracker.map (·.state) = some (.healthy minute)) = true := by decide +kernel
  obtain ⟨⟨final, outputs⟩, ran, healthy⟩ := (Option.any_eq_true _ _).mp evaluated
  refine ⟨final, outputs, ⟨_, by rfl, parseState_unhealthy legible_timeout⟩, ran, of_decide_eq_true healthy,
    health_agrees ?_ ?_ ran⟩
  · decide +kernel
  · simp only [recovery, List.forall_mem_cons, writtenBy, written]
    simp [legible_minute]

end Timeout

end Coral.HealthFiles.Proofs

import Coral.Proofs.AgentIsolation

/-! What an agent's notes are to it: a notebook, which its batches edit in order and which its
reads show. Nothing else that a graph's agents do has a part in it, whatever calls are cut short. -/

namespace Coral.Proofs
open Coral.Library Coral.Temporal LawfulStorage

/-- A note, and not the sidecar of a directory. -/
def IsNote (path : List Name) : Prop := path ≠ [] ∧ isNoteRecord (joinPath path) = true

instance : DecidablePred IsNote := fun _ => inferInstanceAs (Decidable (_ ∧ _))

/-- What the notes say, by their paths below `notes/`. -/
abbrev Notebook := List Name → Option Content

namespace Notebook

/-- What an operation leaves at the path it names. -/
def written : FsOp → Option Content
  | .writeFile _ content => some (.text content)
  | .deleteFile _ => none

def edit (notebook : Notebook) (op : FsOp) : Notebook :=
  match notePath op.path with
  | some path => Function.update notebook path (written op)
  | none => notebook

def edits (notebook : Notebook) (ops : List FsOp) : Notebook := ops.foldl edit notebook

/-- What the note at the path is shown as. -/
def page (render : Content → String) (notebook : Notebook) (path : String) (note : List Name) : Observation :=
  match notebook note with
  | some content => .success (render content)
  | none => .failure ("read: " ++ (FsError.fileNotFound path).toString)

/-- A batch with a path that names no note is refused. Any other is carried out in order, to
its end where it is answered. A read shows what there is. -/
def Allows (render : Content → String) (before : AgentId → Notebook) (call : AgentCall) (answer : ActivityAnswer)
    (after : AgentId → Notebook) : Prop :=
  match call with
  | .perform ⟨agentId, .applyFsOps _ ops, _, _, _⟩ =>
    if ∀ op ∈ ops, (notePath op.path).isSome = true then
      ∃ done, done <+: ops ∧ after = Function.update before agentId ((before agentId).edits done) ∧
        ∀ observation, answer = .rewritten (.ok observation) → observation = .success "notes updated" ∧ done = ops
    else after = before ∧ ∀ observation, answer = .rewritten (.ok observation) → observation.ok = false
  | .readFs agentId (.read path) => after = before ∧ ∀ note observation, notePath path = some note →
      answer = .observed (some (.ok observation)) → observation = (before agentId).page render path note
  | _ => after = before

end Notebook

section Store

variable {σ : Type} [AgentStorage σ] [LawfulStorage σ] {fs : AgentFs} {storage after : σ}

def notebookOf (fs : AgentFs) (storage : σ) : Notebook := fun path =>
  if IsNote path then viewAt storage (noteKey fs path) else none

theorem notebookOf_sets {path : List Name} {value : Option Content} (note : IsNote path)
    (sets : Sets storage after (noteKey fs path) value) :
    notebookOf fs after = Function.update (notebookOf fs storage) path value := by
  funext other
  unfold notebookOf
  rw [Function.update_apply]
  by_cases same : other = path
  · rw [if_pos same, same, if_pos note]
    exact sets.at_key
  · rw [if_neg same, sets.apart (noteKey_apart same)]

theorem notebookOf_sidecar {value : Option Content} (sets : Sets storage after (fs.key NOTES_TAIL_SUFFIX) value) :
    notebookOf fs after = notebookOf fs storage := by
  funext other
  unfold notebookOf
  split
  · rename_i note
    exact sets.apart (noteKey_ne_sidecar note.2)
  · rfl

theorem edit_named {op : FsOp} {path : List Name} (named : notePath op.path = some path) (notebook : Notebook) :
    notebook.edit op = Function.update notebook path (Notebook.written op) := by
  unfold Notebook.edit
  rw [named]

/-- Settling the sidecar is no matter of the notebook. -/
theorem notebookOf_settle {result : Except FsError σ}
    (sidecar : ∀ after, result = .ok after → notebookOf fs after = notebookOf fs storage) :
    notebookOf fs (AgentFs.settle storage result).2 = notebookOf fs storage := by
  cases result with
  | error error => rfl
  | ok after => exact sidecar after rfl

/-- One operation is carried out, or it fails and is not. -/
theorem executeOp_edits {op : FsOp} {path : List Name} (named : notePath op.path = some path) (now : DateTime) :
    notebookOf fs (fs.executeOp now (noteKey fs path) op storage).2 = (notebookOf fs storage).edit op ∨
      notebookOf fs (fs.executeOp now (noteKey fs path) op storage).2 = notebookOf fs storage ∧
        ∃ error, (fs.executeOp now (noteKey fs path) op storage).1 = .error error := by
  have note : IsNote path := isNoteRecord_notePath named
  have edited := edit_named named (notebookOf fs storage)
  unfold AgentFs.executeOp
  rw [stripStart_noteKey]
  cases op with
  | writeFile raw content =>
    simp only
    cases wrote : AgentFs.put storage (noteKey fs path) (.text content) with
    | error error => exact .inr ⟨rfl, error, rfl⟩
    | ok middle =>
      left
      rw [edited]
      refine (notebookOf_settle fun after followed => ?_).trans (notebookOf_sets note (put_spec wrote).2)
      exact notebookOf_sidecar (appendToTail_ok followed).2
  | deleteFile raw =>
    simp only
    cases deleted : AgentFs.stored (noteKey fs path) (AgentStorage.delete storage (noteKey fs path)) with
    | error error => exact .inr ⟨rfl, error, rfl⟩
    | ok middle =>
      left
      rw [edited]
      refine (notebookOf_settle fun after followed => ?_).trans (notebookOf_sets note (delete_spec deleted).1)
      rcases (removeFromTail_ok followed).2 with ⟨same, -⟩ | tailed
      · rw [same]
      · exact notebookOf_sidecar tailed

/-- A planned batch is carried out in order, as far as it comes. -/
theorem executeOps_edits {ops : List FsOp} {planned : List (String × FsOp)}
    (plan : List.Forall₂ (Planned fs) ops planned) (clock : Clock) (reading : Nat) :
    ∃ done, done <+: ops ∧
      notebookOf fs (fs.executeOps clock reading planned storage).2 = (notebookOf fs storage).edits done ∧
      ((fs.executeOps clock reading planned storage).1 = .ok () → done = ops) := by
  induction plan generalizing reading storage with
  | nil => exact ⟨[], List.nil_prefix, rfl, fun _ => rfl⟩
  | @cons op step ops planned first rest ih =>
    obtain ⟨path, named, rfl⟩ := first
    unfold AgentFs.executeOps
    have carried := @executeOp_edits σ _ _ fs storage op path named (clock reading)
    generalize fs.executeOp (clock reading) (noteKey fs path) op storage = executed at carried
    obtain ⟨result, middle⟩ := executed
    cases result with
    | error error =>
      rcases carried with edited | ⟨same, -⟩
      · exact ⟨[op], List.prefix_append [op] ops, edited, fun impossible => by cases impossible⟩
      · exact ⟨[], List.nil_prefix, same, fun impossible => by cases impossible⟩
    | ok done =>
      have edited := carried.resolve_right fun failed => by
        obtain ⟨-, error, impossible⟩ := failed
        cases impossible
      obtain ⟨later, within, after, whole⟩ := @ih middle (reading + 1)
      refine ⟨op :: later, List.cons_prefix_cons.mpr ⟨rfl, within⟩, ?_, fun ended => by rw [whole ended]⟩
      rw [after, edited]
      rfl

/-- A batch is refused as a whole, or carried out in order as far as it comes. -/
theorem rewriteFs_edits (clock : Clock) (ops : List FsOp) :
    if ∀ op ∈ ops, (notePath op.path).isSome = true then
      ∃ done, done <+: ops ∧ notebookOf fs (rewriteFs fs clock ops storage).2 = (notebookOf fs storage).edits done ∧
        ∀ outcome, (rewriteFs fs clock ops storage).1 = .ok outcome →
          outcome.observation = .success "notes updated" ∧ done = ops
    else (rewriteFs fs clock ops storage).2 = storage ∧
      ∀ outcome, (rewriteFs fs clock ops storage).1 = .ok outcome → outcome.observation.ok = false := by
  unfold rewriteFs AgentFs.applyOps
  cases planned : fs.planOps ops with
  | error error =>
    obtain ⟨fault, op, member, unnamed⟩ := planOps_error planned
    have refused : ¬ ∀ op ∈ ops, (notePath op.path).isSome = true := by
      intro named
      have some_path := named op member
      rw [unnamed] at some_path
      cases some_path
    rw [if_neg refused]
    refine ⟨rfl, fun outcome answered => ?_⟩
    unfold correcting at answered
    simp only [fault, if_true, Except.ok.injEq] at answered
    rw [← answered]
    rfl
  | ok steps =>
    have plan := planOps_ok planned
    have accepted : ∀ op ∈ ops, (notePath op.path).isSome = true := by
      intro op member
      obtain ⟨_, -, path, named, -⟩ := forall₂_mem_left plan member
      rw [named]
      rfl
    rw [if_pos accepted]
    obtain ⟨done, within, after, whole⟩ := @executeOps_edits σ _ _ fs storage ops steps plan clock 0
    simp only
    cases ended : fs.executeOps clock 0 steps storage with
    | mk result final =>
      rw [ended] at after whole
      cases result with
      | ok finished => exact ⟨done, within, after, fun outcome answered => ⟨by cases answered; rfl, whole rfl⟩⟩
      | error error =>
        refine ⟨done, within, after, fun outcome answered => ?_⟩
        unfold correcting at answered
        simp only [executeOps_fault ended] at answered
        cases answered

theorem cleanRelpath_note {path : String} {note : List Name} (named : notePath path = some note) :
    AgentFs.cleanRelpath path = .ok ("notes/" ++ joinPath note) := by
  unfold notePath at named
  unfold AgentFs.cleanRelpath
  split at named
  · rename_i first rest plain
    split at named
    · rename_i inside
      cases named
      have whole := @joinPath_append [first] note (List.cons_ne_nil _ _) inside.2.1
      rw [show joinPath [first] = first.text from by simp [joinPath], inside.1] at whole
      rw [plain]
      exact congrArg Except.ok whole
    · cases named
  · cases named

/-- A read of a note shows the page. -/
theorem readFile_page (render : Content → String) {path : String} {note : List Name} (named : notePath path = some note)
    {outcome : StepOutcome}
    (answered : correcting "read" ((fs.readFile render storage path).map .ok) = .ok outcome) :
    outcome.observation = (notebookOf fs storage).page render path note := by
  unfold AgentFs.readFile at answered
  rw [cleanRelpath_note named] at answered
  simp only [bind, Except.bind] at answered
  have page : notebookOf fs storage note = viewAt storage (noteKey fs note) := if_pos (isNoteRecord_notePath named)
  unfold Notebook.page
  rw [page]
  cases got : AgentFs.get storage (fs.key ("notes/" ++ joinPath note)) with
  | error error =>
    rw [got] at answered
    unfold correcting at answered
    have faultless : error.isModelFault = false := by
      unfold AgentFs.get AgentFs.stored at got
      split at got
      · cases got
      · cases got
        rfl
    simp only [Except.map, faultless] at answered
    cases answered
  | ok found =>
    rw [got] at answered
    rw [show viewAt storage (noteKey fs note) = found from (get_spec got).symm]
    cases found with
    | none =>
      cases answered
      rfl
    | some content =>
      cases answered
      rfl

end Store

section Calls

variable {σ : Type} [AgentStorage σ] [LawfulStorage σ] {codec : Codec} {render : Content → String} {graphId : GraphId}

/-- The notebooks of a graph's agents. -/
def notebooks (graphId : GraphId) (storage : σ) (agentId : AgentId) : Notebook :=
  notebookOf (.openForAgent graphId agentId) storage

def NoteKey (graphId : GraphId) (key : String) : Prop :=
  ∃ agentId path, IsNote path ∧ key = noteKey (.openForAgent graphId agentId) path

/-- A key that is no note's. -/
def NoNote (graphId : GraphId) (key : String) : Prop := ∀ other, NoteKey graphId other → keyPath other ≠ keyPath key

theorem noNote {agentId : AgentId} {rest : String} (apart : ∀ path, IsNote path → keyPath rest ≠ notesName :: path) :
    NoNote graphId ((AgentFs.openForAgent graphId agentId).key rest) := by
  rintro _ ⟨other, path, note, rfl⟩ same
  refine apart path note ?_
  rw [← (keyPath_agent_inj same).2, show "notes/" = notesName.text ++ "/" from rfl, keyPath_dir, keyPath_joinPath]

theorem noNote_dir {agentId : AgentId} {directory : Name} (other : directory ≠ notesName) (rest : String) :
    NoNote graphId ((AgentFs.openForAgent graphId agentId).key (directory.text ++ "/" ++ rest)) := by
  refine noNote fun path _ same => ?_
  rw [keyPath_dir] at same
  exact other (List.cons.inj same).1

/-- What the runtime writes is no note. -/
theorem serves_noNote (agentId : AgentId) : Serves (NoNote graphId) (fun _ => True) (.openForAgent graphId agentId) where
  own rest member := by
    have elsewhere : ∀ rest, (keyPath rest).head? ≠ some notesName →
        NoNote graphId ((AgentFs.openForAgent graphId agentId).key rest) :=
      fun rest other => noNote fun path _ same => other (congrArg List.head? same)
    simp only [runtimeFiles, openedKeys, List.mem_cons, List.not_mem_nil, or_false] at member
    rcases member with rfl | rfl | rfl | rfl | rfl
    · exact elsewhere _ (by decide)
    · exact elsewhere _ (by decide)
    · exact elsewhere _ (by decide)
    · exact elsewhere _ (by decide)
    · refine noNote fun path note same => ?_
      rw [show keyPath NOTES_TAIL_SUFFIX = [notesName, tailName] from by decide] at same
      obtain rfl := (List.cons.inj same).2
      exact absurd note (by decide)
  recorded observed := by
    obtain ⟨body, path, -⟩ := relpath_word observed
    rw [path]
    exact @noNote_dir graphId agentId evidenceName (by decide) _
  conflicts alternatives resolution := by
    unfold AgentFs.conflictKey
    rw [String.append_assoc]
    exact @noNote_dir graphId agentId conflictsName (by decide) _
  decisions tick step := by
    simp only [String.append_assoc]
    exact @noNote_dir graphId agentId decisionsName (by decide) _
  indexed _ _ := trivial

/-- The files beside themselves: what is written elsewhere leaves the notebooks as they were. -/
theorem notes_lockstep (before : σ) :
    Lockstep (fun first second : σ => first = second ∧ Frames (NoteKey graphId) before first) (NoNote graphId) (fun _ => True)
      (fun _ => True) := frame_lockstep (fun _ apart => apart) before

theorem notebooks_frames {before after : σ} (frames : Frames (NoteKey graphId) before after) :
    notebooks graphId after = notebooks graphId before := by
  funext agentId path
  unfold notebooks notebookOf
  split
  · rename_i note
    exact frames _ ⟨agentId, path, note, rfl⟩
  · rfl

theorem notebooks_call {files : σ} {db : StructuralDb} {call : AgentCall}
    (within : call.Within (NoNote graphId) (fun _ => True) (fun _ => True) graphId) :
    notebooks graphId (answerAgent codec render graphId (files, db) call).2.1 = notebooks graphId files := by
  obtain ⟨answer, one, two, rows, answered, -, next⟩ := @Lockstep.answer _ _ _ _ _ _ _ _ codec graphId
    (notes_lockstep files) render files files db call within ⟨rfl, fun _ _ => rfl⟩
  rw [answered]
  exact notebooks_frames next.2

/-- The activity opens the files, and then carries out the batch. -/
theorem applyFsOpsImpl_edits {agentId : AgentId} (mandate : Mandate) (ops : List FsOp) (clock : Clock) (files : σ) :
    if ∀ op ∈ ops, (notePath op.path).isSome = true then
      ∃ done, done <+: ops ∧
        notebooks graphId (applyFsOpsImpl (.forAgent graphId agentId) mandate ops clock files).2 agentId =
          (notebooks graphId files agentId).edits done ∧
        ∀ observation, (applyFsOpsImpl (.forAgent graphId agentId) mandate ops clock files).1 = .ok observation →
          observation = .success "notes updated" ∧ done = ops
    else notebooks graphId (applyFsOpsImpl (.forAgent graphId agentId) mandate ops clock files).2 agentId =
        notebooks graphId files agentId ∧
      ∀ observation, (applyFsOpsImpl (.forAgent graphId agentId) mandate ops clock files).1 = .ok observation →
        observation.ok = false := by
  have serves := @serves_noNote graphId agentId
  rw [← attach_forAgent] at serves
  obtain ⟨result, opened, _, opening, -, next, agent⟩ := (notes_lockstep files).opens serves
    (show files = files ∧ Frames (NoteKey graphId) files files from ⟨rfl, fun _ _ => rfl⟩) mandate clock
  have same := congrFun (notebooks_frames next.2) agentId
  unfold applyFsOpsImpl
  rw [opening]
  cases result with
  | error error =>
    simp only
    split
    · exact ⟨[], List.nil_prefix, same, fun _ impossible => by cases impossible⟩
    · exact ⟨same, fun _ impossible => by cases impossible⟩
  | ok fs =>
    obtain rfl := agent fs rfl
    rw [attach_forAgent]
    simp only
    have carried := @rewriteFs_edits σ _ _ (.openForAgent graphId agentId) opened (fun reading => clock (reading + 2)) ops
    generalize rewriteFs (.openForAgent graphId agentId) (fun reading => clock (reading + 2)) ops opened = ended at carried
    obtain ⟨answer, final⟩ := ended
    change notebookOf _ opened = _ at same
    rw [same] at carried
    split at carried
    · rename_i accepted
      obtain ⟨done, within, after, told⟩ := carried
      rw [if_pos accepted]
      refine ⟨done, within, ?_, ?_⟩
      · cases answer <;> exact after
      · intro observation shown
        cases answer with
        | error error => cases shown
        | ok outcome =>
          obtain rfl := Except.ok.inj shown
          exact told outcome rfl
    · rename_i refused
      obtain ⟨unchanged, told⟩ := carried
      rw [if_neg refused]
      refine ⟨?_, ?_⟩
      · rw [← same, ← unchanged]
        cases answer <;> rfl
      · intro observation shown
        cases answer with
        | error error => cases shown
        | ok outcome =>
          obtain rfl := Except.ok.inj shown
          exact told outcome rfl

/-- An agent's batch is carried out on its own notebook. -/
theorem applyFsOps_allowed (files : σ) (db : StructuralDb) (agentId : AgentId) (mandate : Mandate) (ops : List FsOp)
    (clock : Clock) (writes calls : Nat) :
    Notebook.Allows render (notebooks graphId files) (.perform ⟨agentId, .applyFsOps mandate ops, clock, writes, calls⟩)
      (answerAgent codec render graphId (files, db) (.perform ⟨agentId, .applyFsOps mandate ops, clock, writes, calls⟩)).1
      (notebooks graphId
        (answerAgent codec render graphId (files, db) (.perform ⟨agentId, .applyFsOps mandate ops, clock, writes, calls⟩)).2.1) := by
  have outside := @answerAgent_outside σ _ _ graphId codec render files db
    (.perform ⟨agentId, .applyFsOps mandate ops, clock, writes, calls⟩)
  have others : ∀ other, other ≠ agentId → notebooks graphId (answerAgent codec render graphId (files, db)
      (.perform ⟨agentId, .applyFsOps mandate ops, clock, writes, calls⟩)).2.1 other = notebooks graphId files other := by
    intro other apart
    funext path
    unfold notebooks notebookOf
    split
    · exact outside _ (agentRoot_apart apart.symm _)
    · rfl
  have own := @applyFsOpsImpl_edits (Stopping σ) _ _ graphId agentId mandate ops clock ⟨files, writes, []⟩
  have rest : ∀ notebook, notebooks graphId (answerAgent codec render graphId (files, db)
        (.perform ⟨agentId, .applyFsOps mandate ops, clock, writes, calls⟩)).2.1 agentId = notebook →
      notebooks graphId (answerAgent codec render graphId (files, db)
        (.perform ⟨agentId, .applyFsOps mandate ops, clock, writes, calls⟩)).2.1 =
          Function.update (notebooks graphId files) agentId notebook := by
    intro notebook same
    funext other
    rw [Function.update_apply]
    split
    · rename_i here
      rw [here, same]
    · rename_i apart
      exact others other apart
  unfold Notebook.Allows
  simp only
  split at own
  · rename_i accepted
    obtain ⟨done, within, after, told⟩ := own
    rw [if_pos accepted]
    exact ⟨done, within, rest _ after, fun observation answered => told observation (ActivityAnswer.rewritten.inj answered)⟩
  · rename_i refused
    obtain ⟨unchanged, told⟩ := own
    rw [if_neg refused]
    refine ⟨?_, fun observation answered => told observation (ActivityAnswer.rewritten.inj answered)⟩
    exact (rest _ unchanged).trans (Function.update_eq_self agentId _)

/-- Each call does to the notebooks what it may, and is answered so. -/
theorem answerAgent_allowed (files : σ) (db : StructuralDb) (call : AgentCall) :
    Notebook.Allows render (notebooks graphId files) call (answerAgent codec render graphId (files, db) call).1
      (notebooks graphId (answerAgent codec render graphId (files, db) call).2.1) := by
  cases call with
  | perform event =>
    obtain ⟨agentId, activity, clock, writes, calls⟩ := event
    cases activity with
    | applyFsOps mandate ops => exact applyFsOps_allowed files db agentId mandate ops clock writes calls
    | persistOutput body citations => exact notebooks_call ⟨serves_noNote agentId, fun _ _ _ _ => trivial⟩
    | reconcileChildren sources conflict now => exact notebooks_call ⟨serves_noNote agentId, fun _ _ => trivial⟩
    | _ => exact notebooks_call ⟨serves_noNote agentId, trivial⟩
  | buildSeed agentId mandate triggers humanOps mandatePatches clock writes =>
    exact notebooks_call ⟨serves_noNote agentId, trivial⟩
  | readFs agentId op =>
    cases op with
    | read path =>
      refine ⟨rfl, fun note observation named answered => ?_⟩
      have shown : Except.map (fun outcome : StepOutcome => outcome.observation) (correcting "read"
          (((AgentFs.openForAgent graphId agentId).readFile render files path).map .ok)) = .ok observation := by
        rw [← attach_forAgent]
        exact Option.some.inj (ActivityAnswer.observed.inj answered)
      cases told : correcting "read"
          (((AgentFs.openForAgent graphId agentId).readFile render files path).map .ok) with
      | error error =>
        rw [told] at shown
        cases shown
      | ok outcome =>
        rw [told] at shown
        obtain rfl := Except.ok.inj shown
        exact readFile_page render named told
    | _ => rfl

/-- Over any store, and with any of its calls cut short, a run of a graph's agents is a history
of their notebooks: each is edited by its own agent's batches, in order and by a part of a batch
only where the batch goes unanswered, and each read of a note shows what was last written there. -/
theorem notes_as_notebooks {files after : σ} {db rows : StructuralDb} {calls : List AgentCall}
    {answers : List ActivityAnswer}
    (ran : (agentCalls codec render graphId).run (files, db) calls = some ((after, rows), answers)) :
    Machine.Explained (fun before call answer next => Notebook.Allows render before call answer next)
      (notebooks graphId files) (calls.zip answers) (notebooks graphId after) := by
  refine (agentCalls codec render graphId).run_explained (fun state => notebooks graphId state.1) ?_ ran
  intro state call next outputs stepped
  obtain ⟨rfl, rfl⟩ := Prod.mk.inj (Option.some.inj stepped)
  exact ⟨_, rfl, answerAgent_allowed state.1 state.2 call⟩

end Calls

section Examples

private def diarist : AgentId := ⟨⟨1⟩⟩

private def reader : AgentId := ⟨⟨2⟩⟩

/-- A batch that stops after its first note, one that is refused, and a look at what there is. -/
private def scribbling : List AgentCall :=
  [.perform ⟨diarist, .applyFsOps placeholderMandate [.writeFile "notes/a" "one", .writeFile "notes/b" "two"],
      fun _ => ⟨0⟩, 3, 0⟩,
    .perform ⟨diarist, .applyFsOps placeholderMandate [.deleteFile "notes/a", .writeFile "../b" "two"], fun _ => ⟨0⟩, 9, 0⟩,
    .readFs diarist (.read "./notes//a"), .readFs reader (.read "notes/a"), .readFs diarist (.read "notes/b")]

private def shownText : Content → String
  | .text body => body
  | _ => ""

private def emptyRows : StructuralDb := ⟨[], [], [], [], ∅, []⟩

theorem notes_as_notebooks_scribbling : ∃ after rows answers,
    (agentCalls (listedCodec [] []) shownText ⟨⟨0⟩⟩).run ((⟨∅⟩ : MemoryStorage), emptyRows) scribbling =
      some ((after, rows), answers) ∧
    (answers.drop 2).map (fun answer => decide (answer = .observed (some (.ok (.success "one"))))) = [true, false, false] ∧
    Machine.Explained (fun before call answer next => Notebook.Allows shownText before call answer next)
      (notebooks ⟨⟨0⟩⟩ (⟨∅⟩ : MemoryStorage)) (scribbling.zip answers) (notebooks ⟨⟨0⟩⟩ after) := by
  have answered : ((agentCalls (listedCodec [] []) shownText ⟨⟨0⟩⟩).run ((⟨∅⟩ : MemoryStorage), emptyRows) scribbling).map
      (fun ended => (ended.2.drop 2).map fun answer => decide (answer = .observed (some (.ok (.success "one"))))) =
        some [true, false, false] := by
    decide +kernel
  obtain ⟨⟨⟨after, rows⟩, answers⟩, ran, shown⟩ := Option.map_eq_some_iff.mp answered
  exact ⟨after, rows, answers, ran, shown, notes_as_notebooks ran⟩

end Examples

end Coral.Proofs

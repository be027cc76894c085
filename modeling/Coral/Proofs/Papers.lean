import Coral.Proofs.CallBatch
import Coral.Proofs.Notebook
import Coral.Temporal.HostSteps

/-! The files that an agent's cycles work with, apart from everything else that the hosts keep
beside them: what they say, and what each operation of the agent's files does to them. -/

namespace Coral.Proofs
open Coral.Library Coral.Temporal LawfulStorage

/-- A file that a cycle works with: a note, a record of evidence, or an output. -/
def IsPaper : List Name → Prop
  | [] => False
  | directory :: path =>
    directory = notesName ∧ IsNote path ∨ directory = evidenceName ∧ path ≠ [] ∧ path ≠ [tailName] ∨
      directory = outputsName ∧ path ≠ []

instance : DecidablePred IsPaper
  | [] => inferInstanceAs (Decidable False)
  | _ :: _ => inferInstanceAs (Decidable (_ ∨ _))

/-- What the files say, by their paths below the agent's root. -/
abbrev Papers := List Name → Option Content

/-- What a step tells the model: a text if it succeeds, and otherwise that it does not. -/
abbrev Told := Option String

def Told.Says : Told → Observation → Prop
  | some text, observation => observation = .success text
  | none, observation => observation.ok = false

namespace Papers

def notes (papers : Papers) : Notebook := fun path => papers (notesName :: path)

def withNotes (papers : Papers) (notes : Notebook) : Papers
  | [] => none
  | directory :: path => if directory = notesName then notes path else papers (directory :: path)

/-- A record that is there already stays as it is. -/
def record (papers : Papers) (observed : Observed) : Papers :=
  if (papers (keyPath observed.relpath)).isSome then papers
  else Function.update papers (keyPath observed.relpath) (some (.evidence observed.record))

def recordAll (papers : Papers) (history : List Observed) : Papers := history.foldl record papers

def cited (papers : Papers) (path : String) : Bool :=
  match AgentFs.evidenceRelpathChecked path with
  | .ok rel => (papers (keyPath rel)).isSome
  | .error _ => false

def cites (papers : Papers) (citations : List String) : Bool := !citations.isEmpty && citations.all papers.cited

/-- What a step comes to, on any host. -/
def act (render : Content → String) (papers : Papers) (step : HostStep) : Told × Papers :=
  match step.action with
  | .callTools calls =>
    let history := observedCalls (step.registry.answers calls) step.called step.called calls
    (if failedCalls (step.registry.answers calls) calls = [] then
        some (toString history.length ++ " tool call(s) succeeded; cite this evidence: " ++
          String.intercalate ", " (history.map (·.relpath)))
      else none, papers.recordAll history)
  | .writeOutput body citations =>
    if papers.cites citations then
      (some "output persisted", Function.update papers (keyPath CANONICAL_OUTPUT) (some (.text body)))
    else (none, papers)
  | .rewriteFs ops =>
    if ∀ op ∈ ops, (notePath op.path).isSome = true then
      (some "notes updated", papers.withNotes (papers.notes.edits ops))
    else (none, papers)
  | .read path =>
    match AgentFs.cleanRelpath path with
    | .ok rel => ((papers (keyPath rel)).map render, papers)
    | .error _ => (none, papers)
  | _ => (none, papers)

end Papers

/-- A step that both hosts can take: its calls are of tools that there are and that the agent
is granted, and what it reads is a file that a cycle works with. -/
def Shared (allowedTools : List String) (step : HostStep) : Prop :=
  match step.action with
  | .callTools calls => ∀ call ∈ calls, step.registry.contains call.name = true ∧
      step.registry.isCallAllowed call.name allowedTools = true
  | .writeOutput _ _ | .rewriteFs _ => True
  | .read path => ∀ rel, AgentFs.cleanRelpath path = .ok rel → IsPaper (keyPath rel)
  | _ => False

section Store

variable {σ : Type} [AgentStorage σ] [LawfulStorage σ] {fs : AgentFs} {storage after : σ}

def papersOf (fs : AgentFs) (storage : σ) : Papers := fun path =>
  if IsPaper path then viewAt storage (fs.key (joinPath path)) else none

theorem papersOf_paper (fs : AgentFs) (storage : σ) {path : List Name} (paper : IsPaper path) :
    papersOf fs storage path = viewAt storage (fs.key (joinPath path)) := if_pos paper

theorem papersOf_sets (attached : Attached fs) {path : List Name} {value : Option Content} (paper : IsPaper path)
    (sets : Sets storage after (fs.key (joinPath path)) value) :
    papersOf fs after = Function.update (papersOf fs storage) path value := by
  funext other
  unfold papersOf
  rw [Function.update_apply]
  by_cases same : other = path
  · rw [if_pos same, same, if_pos paper]
    exact sets.at_key
  · rw [if_neg same, sets.apart]
    rw [keyPath_key attached, keyPath_key attached (joinPath path), keyPath_joinPath, keyPath_joinPath]
    exact fun here => same (List.append_cancel_left here)

theorem papersOf_aside (attached : Attached fs) {rest : String} {value : Option Content} (aside : ¬ IsPaper (keyPath rest))
    (sets : Sets storage after (fs.key rest) value) : papersOf fs after = papersOf fs storage := by
  funext other
  unfold papersOf
  split
  · rename_i paper
    refine sets.apart fun here => aside ?_
    rw [keyPath_key attached, keyPath_key attached rest, keyPath_joinPath] at here
    rwa [← List.append_cancel_left here]
  · rfl

theorem papersOf_open {raw : String} {mandate : Mandate} {clock : Clock} {result : Except FsError AgentFs}
    (opened : AgentFs.openWithStorage raw mandate clock storage = (result, after)) :
    papersOf (.attach raw) after = papersOf (.attach raw) storage ∧ ∀ fs, result = .ok fs → fs = .attach raw := by
  refine @openWithStorage_keeps σ _ (fun now => papersOf (.attach raw) now = papersOf (.attach raw) storage) raw mandate
    clock storage after result opened rfl ?_
  intro before middle key value member same written
  refine (papersOf_aside (attached_attach raw) ?_ (put_spec written).2).trans same
  unfold openedKeys at member
  simp only [List.mem_cons, List.not_mem_nil, or_false] at member
  rcases member with rfl | rfl | rfl <;> decide

/-- A read of a paper shows what it says. -/
theorem get_paper {rel : String} {found : Option Content} (whole : rel = joinPath (keyPath rel)) (paper : IsPaper (keyPath rel))
    (got : AgentFs.get storage (fs.key rel) = .ok found) : found = papersOf fs storage (keyPath rel) := by
  rw [papersOf_paper fs storage paper, ← whole]
  exact get_spec got

end Store

/-- A deletion leaves nothing where it deletes, and nothing where there was nothing. -/
class Unobstructing (σ : Type) [AgentStorage σ] [LawfulStorage σ] : Prop where
  delete_vacant : ∀ (storage after : σ) key, AgentStorage.delete storage key = .ok after →
    vacant after key ∧ ∀ other, vacant storage other → vacant after other

instance : Unobstructing MemoryStorage where
  delete_vacant storage after key deleted := by
    cases deleted
    refine ⟨AList.lookup_erase _ _, fun other free => ?_⟩
    change (storage.inner.erase key).lookup other = none
    rw [lookup_erase]
    split
    · rfl
    · exact free

instance : Unobstructing LocalStorage where
  delete_vacant storage after key deleted := by
    change storage.delete key = _ at deleted
    unfold LocalStorage.delete at deleted
    split at deleted
    · rename_i tree removed
      cases deleted
      obtain ⟨-, lookups⟩ := FileTree.removeFile_ok removed
      refine ⟨(lookups _).trans (if_pos rfl), fun other free => (lookups _).trans ?_⟩
      split
      · rfl
      · exact free
    · rename_i missing
      cases deleted
      have absent := FileTree.removeFile_error missing
      rw [if_pos rfl] at absent
      exact ⟨absent.1, fun _ free => free⟩
    · cases deleted

section Records

/-- A file that is in the way of no record. -/
def Clears (rest : String) : Prop :=
  ∀ observed : Observed, keyPath observed.relpath <+: keyPath rest → observed.relpath = rest

theorem record_path (observed : Observed) :
    ∃ name : Name, observed.relpath = evidenceName.text ++ "/" ++ name.text ∧ '_' ∉ name.text.toList ∧
      keyPath observed.relpath = [evidenceName, name] := by
  obtain ⟨name, path, free⟩ := relpath_name observed
  refine ⟨name, path, free, ?_⟩
  rw [path, show "evidence/" = evidenceName.text ++ "/" from rfl, keyPath_dir,
    show keyPath name.text = [name] from keyPath_joinPath [name]]

theorem record_paper (observed : Observed) :
    ∃ path, keyPath observed.relpath = path ∧ IsPaper path ∧ observed.relpath = joinPath path := by
  obtain ⟨name, whole, free, parts⟩ := record_path observed
  refine ⟨[evidenceName, name], parts, .inr (.inl ⟨rfl, List.cons_ne_nil _ _, ?_⟩), whole⟩
  intro sidecar
  rw [(List.cons.inj sidecar).1] at free
  exact free (by decide)

theorem clears_elsewhere {rest : String} (elsewhere : (keyPath rest).head? ≠ some evidenceName) : Clears rest := by
  intro observed above
  obtain ⟨name, -, -, parts⟩ := record_path observed
  rw [parts] at above
  obtain ⟨more, whole⟩ := above
  rw [← whole] at elsewhere
  exact (elsewhere rfl).elim

theorem clears_dir {directory : Name} (other : directory ≠ evidenceName) (rest : String) :
    Clears (directory.text ++ "/" ++ rest) := by
  refine clears_elsewhere fun same => other ?_
  rw [keyPath_dir] at same
  exact Option.some.inj same

theorem clears_record (observed : Observed) : Clears observed.relpath := by
  intro other above
  obtain ⟨name, path, -, parts⟩ := record_path observed
  obtain ⟨name', path', -, parts'⟩ := record_path other
  rw [parts, parts'] at above
  have same := above.eq_of_length rfl
  rw [path, path', (List.cons.inj (List.cons.inj same).2).1]

def AgentKey (fs : AgentFs) (key : String) : Prop := ∃ rest, Clears rest ∧ key = fs.key rest

/-- None of the runtime's files is in the way of a record. -/
theorem serves_clears (fs : AgentFs) : Serves (AgentKey fs) (fun _ => True) fs where
  own rest member := by
    refine ⟨rest, ?_, rfl⟩
    simp only [runtimeFiles, openedKeys, List.mem_cons, List.not_mem_nil, or_false] at member
    rcases member with rfl | rfl | rfl | rfl | rfl
    · exact clears_elsewhere (by decide)
    · exact clears_elsewhere (by decide)
    · exact clears_elsewhere (by decide)
    · intro observed above
      obtain ⟨name, -, free, parts⟩ := record_path observed
      rw [parts, show keyPath EVIDENCE_TAIL_SUFFIX = [evidenceName, tailName] from by decide] at above
      rw [(List.cons.inj (List.cons.inj (above.eq_of_length rfl)).2).1] at free
      exact absurd free (by decide)
    · exact clears_elsewhere (by decide)
  recorded observed := ⟨_, clears_record observed, rfl⟩
  conflicts alternatives resolution := by
    unfold AgentFs.conflictKey
    rw [String.append_assoc]
    exact ⟨_, @clears_dir conflictsName (by decide) _, rfl⟩
  decisions tick step := by
    simp only [String.append_assoc]
    exact ⟨_, @clears_dir decisionsName (by decide) _, rfl⟩
  indexed _ _ := trivial

theorem not_over_record {fs : AgentFs} (attached : Attached fs) {rest : String} (clears : Clears rest) {observed : Observed}
    (other : observed.relpath ≠ rest) : ¬ keyPath (fs.key observed.relpath) <+: keyPath (fs.key rest) := by
  rw [keyPath_key attached, keyPath_key attached rest, List.prefix_append_right_inj]
  exact fun above => other (clears observed above)

theorem apart_record {fs : AgentFs} (attached : Attached fs) {rest : String} (clears : Clears rest) {observed : Observed}
    (other : observed.relpath ≠ rest) : keyPath (fs.key observed.relpath) ≠ keyPath (fs.key rest) := by
  intro same
  apply not_over_record attached clears other
  rw [same]

variable {σ : Type} [AgentStorage σ] [LawfulStorage σ] {fs : AgentFs}

/-- Where no record is, nothing is in its way. -/
def Unblocked (fs : AgentFs) (storage : σ) : Prop :=
  ∀ observed : Observed, viewAt storage (fs.key observed.relpath) = none → vacant storage (fs.key observed.relpath)

/-- What an agent's files undergo leaves the paths of its records free. -/
theorem unblocked_lockstep [Unobstructing σ] (attached : Attached fs) :
    Lockstep (fun first second : σ => first = second ∧ Unblocked fs first) (AgentKey fs) (fun _ => True) (fun _ => True) where
  reads_keys _ := trivial
  get alike _ := by rw [alike.1]
  list alike _ := by rw [alike.1]
  listed _ _ _ _ _ := trivial
  put {first second key value} alike used := by
    obtain ⟨rfl, unblocked⟩ := alike
    obtain ⟨rest, clears, rfl⟩ := used
    cases written : AgentStorage.put first (fs.key rest) value with
    | error error => exact (rfl : error = error)
    | ok after =>
      refine And.intro rfl fun observed bare => ?_
      have sets : Sets first after (fs.key rest) (some value) := (put_ok _ _ _ _ written).2
      by_cases here : observed.relpath = rest
      · rw [here, sets.at_key] at bare
        cases bare
      · refine put_vacant _ _ _ _ written _ (not_over_record attached clears here) (unblocked observed ?_)
        exact (sets.apart (apart_record attached clears here)).symm.trans bare
  putIfAbsent {first second key value} alike used := by
    obtain ⟨rfl, unblocked⟩ := alike
    obtain ⟨rest, clears, rfl⟩ := used
    cases written : AgentStorage.putIfAbsent first (fs.key rest) value with
    | error error => exact (rfl : error = error)
    | ok made =>
      obtain ⟨outcome, after⟩ := made
      refine ⟨rfl, rfl, fun observed bare => ?_⟩
      obtain ⟨taken, kept⟩ := putIfAbsent_vacant _ _ _ _ _ written
      cases outcome with
      | existed =>
        have same : viewAt after (fs.key observed.relpath) = viewAt first (fs.key observed.relpath) := by
          unfold viewAt
          rw [putIfAbsent_existed _ _ _ _ written]
        rw [same] at bare
        by_cases here : observed.relpath = rest
        · rw [← here] at taken
          exact (taken rfl (unblocked observed bare)).elim
        · exact kept _ (not_over_record attached clears here) (unblocked observed bare)
      | created =>
        have sets : Sets first after (fs.key rest) (some value) := (putIfAbsent_created _ _ _ _ written).2.2
        by_cases here : observed.relpath = rest
        · rw [here, sets.at_key] at bare
          cases bare
        · refine kept _ (not_over_record attached clears here) (unblocked observed ?_)
          exact (sets.apart (apart_record attached clears here)).symm.trans bare
  delete {first second key} alike used := by
    obtain ⟨rfl, unblocked⟩ := alike
    obtain ⟨rest, clears, rfl⟩ := used
    cases deleted : AgentStorage.delete first (fs.key rest) with
    | error error => exact (rfl : error = error)
    | ok after =>
      refine And.intro rfl fun observed bare => ?_
      obtain ⟨free, kept⟩ := Unobstructing.delete_vacant _ _ _ deleted
      have sets : Sets first after (fs.key rest) none := (delete_ok _ _ _ deleted).1
      by_cases here : observed.relpath = rest
      · rw [here]
        exact free
      · refine kept _ (unblocked observed ?_)
        exact (sets.apart (apart_record attached clears here)).symm.trans bare

end Records

section Steps

variable {σ : Type} [AgentStorage σ] [LawfulStorage σ] {fs : AgentFs} {storage after : σ}

theorem papersOf_notes (fs : AgentFs) (storage : σ) : (papersOf fs storage).notes = notebookOf fs storage := by
  funext path
  have paper : IsPaper (notesName :: path) ↔ IsNote path := by
    refine ⟨fun paper => ?_, fun note => .inl ⟨rfl, note⟩⟩
    rcases paper with ⟨-, note⟩ | ⟨other, -⟩ | ⟨other, -⟩
    · exact note
    · exact absurd other (by decide)
    · exact absurd other (by decide)
  unfold Papers.notes papersOf notebookOf
  by_cases note : IsNote path
  · rw [if_pos note, if_pos (paper.mpr note)]
    have whole := @joinPath_append [notesName] path (List.cons_ne_nil _ _) note.1
    rw [List.singleton_append] at whole
    rw [whole]
    rfl
  · rw [if_neg note, if_neg fun other => note (paper.mp other)]

omit [LawfulStorage σ] in
theorem rewriteFs_after (fs : AgentFs) (clock : Clock) (ops : List FsOp) (storage : σ) :
    (rewriteFs fs clock ops storage).2 = (fs.applyOps clock ops storage).2 := by
  unfold rewriteFs
  split <;> rename_i same <;> rw [same]

/-- Only notes are edited. -/
theorem rewriteFs_aside (attached : Attached fs) (clock : Clock) (ops : List FsOp) {directory : Name} {path : List Name}
    (other : directory ≠ notesName) :
    papersOf fs (rewriteFs fs clock ops storage).2 (directory :: path) = papersOf fs storage (directory :: path) := by
  unfold papersOf
  split
  · rw [rewriteFs_after]
    by_contra changed
    have here : ∀ rest, (keyPath rest).head? = some notesName →
        (place (fs.key (joinPath (directory :: path))) : Place σ) ≠ place (fs.key rest) := by
      intro rest head same
      have paths := path_of_place _ _ same
      rw [keyPath_key attached, keyPath_key attached rest, keyPath_joinPath] at paths
      rw [← List.append_cancel_left paths] at head
      exact other (Option.some.inj head)
    rcases applyOps_frame clock ops changed with sidecar | ⟨-, op, -, key, accepted, there⟩
    · exact here NOTES_TAIL_SUFFIX (by decide) sidecar
    · obtain ⟨note, -, rfl⟩ := accepted_iff.mp accepted
      refine here ("notes/" ++ joinPath note) ?_ there
      rw [show "notes/" = notesName.text ++ "/" from rfl, keyPath_dir]
      rfl
  · rfl

/-- A batch is refused, or carried out. -/
theorem rewriteFs_papers (attached : Attached fs) {clock : Clock} {ops : List FsOp} {outcome : StepOutcome}
    (answered : rewriteFs fs clock ops storage = (.ok outcome, after)) :
    if ∀ op ∈ ops, (notePath op.path).isSome = true then
      outcome.observation = .success "notes updated" ∧
        papersOf fs after = (papersOf fs storage).withNotes ((papersOf fs storage).notes.edits ops)
    else outcome.observation.ok = false ∧ papersOf fs after = papersOf fs storage := by
  have edited := @rewriteFs_edits σ _ _ fs storage clock ops
  have aside := @rewriteFs_aside σ _ _ fs storage attached clock ops
  rw [answered] at edited aside
  split at edited
  · rename_i named
    obtain ⟨done, -, notes, whole⟩ := edited
    obtain ⟨said, rfl⟩ := whole outcome rfl
    rw [if_pos named]
    refine ⟨said, funext fun path => ?_⟩
    cases path with
    | nil => exact if_neg id
    | cons directory path =>
      change _ = if directory = notesName then _ else _
      split
      · rename_i here
        rw [here, papersOf_notes, ← notes]
        exact congrFun (papersOf_notes fs after) path
      · rename_i other
        exact aside other
  · rename_i refused
    obtain ⟨same, said⟩ := edited
    rw [if_neg refused]
    exact ⟨said outcome rfl, congrArg (papersOf fs) same⟩

theorem tail_aside : ¬ IsPaper (keyPath EVIDENCE_TAIL_SUFFIX) := by decide

/-- A record is filed if there is none at its path. -/
theorem recordEvidence_papers (attached : Attached fs) (unblocked : Unblocked fs storage) {observed : Observed} {path : String}
    {now : DateTime}
    (recorded : fs.recordEvidence now observed.record observed.slugSeed storage = (.ok path, after)) :
    path = observed.relpath ∧ papersOf fs after = (papersOf fs storage).record observed := by
  obtain ⟨parts, same, paper, whole⟩ := record_paper observed
  have held : papersOf fs storage parts = viewAt storage (fs.key observed.relpath) := by
    rw [papersOf_paper fs storage paper, ← whole]
  have ended := recordEvidence_ok recorded
  rw [show evidenceRelpath observed.slugSeed observed.record.id = observed.relpath from rfl] at ended
  unfold Papers.record
  rw [same]
  obtain ⟨named, existed | ⟨middle, created, followed⟩⟩ := ended
  · refine ⟨named, ?_⟩
    have taken := (putIfAbsent_vacant _ _ _ _ _ existed).1 rfl
    have there : (papersOf fs storage parts).isSome = true := by
      rw [held]
      cases found : viewAt storage (fs.key observed.relpath) with
      | none => exact (taken (unblocked observed found)).elim
      | some content => rfl
    rw [if_pos there]
    funext other
    unfold papersOf viewAt
    rw [putIfAbsent_existed _ _ _ _ existed]
  · refine ⟨named, ?_⟩
    obtain ⟨bare, -, sets⟩ := putIfAbsent_created _ _ _ _ created
    have empty : (papersOf fs storage parts).isSome = false := by
      rw [held]
      unfold viewAt
      rw [bare]
      rfl
    rw [if_neg (by rw [empty]; exact Bool.false_ne_true)]
    have filed : papersOf fs middle = Function.update (papersOf fs storage) parts (some (.evidence observed.record)) := by
      refine papersOf_sets attached paper ?_
      rw [← whole]
      exact sets
    exact (papersOf_aside attached tail_aside (appendToTail_ok followed).2).trans filed

end Steps

section Outputs

variable {σ : Type} [AgentStorage σ] [LawfulStorage σ] {fs : AgentFs} {storage after : σ}

/-- Errors that are no mistake of the model. -/
def Infrastructural {α : Type} (result : Except FsError α) : Prop := Tolerates (fun error => !error.isModelFault) result

theorem Infrastructural.faultless {α : Type} {result : Except FsError α} (known : Infrastructural result) {error : FsError}
    (failed : result = .error error) : error.isModelFault = false := by
  simpa using known error failed

theorem stored_infrastructural {α : Type} (key : String) (result : Except StorageError α) :
    Infrastructural (AgentFs.stored key result) := by
  cases result with
  | ok value => exact tolerates_ok value
  | error source => exact tolerates_error.mpr rfl

omit [AgentStorage σ] [LawfulStorage σ] in
theorem settle_infrastructural {result : Except FsError σ} (known : Infrastructural result) :
    Infrastructural (AgentFs.settle storage result).1 := by
  cases result with
  | ok value => exact tolerates_ok _
  | error error => exact tolerates_error.mpr (tolerates_error.mp known)

omit [LawfulStorage σ] in
theorem reconcileTail_infrastructural (suffix indexed : String) (isRecord : String → Bool) (now : DateTime) (storage : σ) :
    Infrastructural (fs.reconcileTail suffix indexed isRecord now storage) := by
  refine tolerates_bind.mpr
    ⟨tolerates_bind.mpr ⟨stored_infrastructural _ _, fun _ _ => tolerates_pure _⟩, fun keys _ => ?_⟩
  simp only
  split
  · exact tolerates_pure _
  · refine tolerates_bind.mpr ⟨stored_infrastructural _ _, fun found _ => ?_⟩
    split
    · exact tolerates_pure _
    · exact stored_infrastructural _ _

omit [LawfulStorage σ] in
theorem open_infrastructural (raw : String) (mandate : Mandate) (clock : Clock) (storage : σ) :
    Infrastructural (AgentFs.openWithStorage raw mandate clock storage).1 := by
  unfold AgentFs.openWithStorage
  simp only
  split
  · rename_i error failed
    exact tolerates_error.mpr (stored_infrastructural _ _ error failed)
  · split
    · rename_i error mandated settled
      refine tolerates_error.mpr (settle_infrastructural ?_ error (congrArg Prod.fst settled))
      split
      · exact stored_infrastructural _ _
      · exact tolerates_ok _
    · split
      · rename_i error indexed settled
        exact tolerates_error.mpr
          (settle_infrastructural (reconcileTail_infrastructural _ _ _ _ _) error (congrArg Prod.fst settled))
      · split
        · rename_i error opened settled
          exact tolerates_error.mpr
            (settle_infrastructural (reconcileTail_infrastructural _ _ _ _ _) error (congrArg Prod.fst settled))
        · exact tolerates_ok _

theorem checked_paper {path rel : String} (checked : AgentFs.evidenceRelpathChecked path = .ok rel) :
    IsPaper (keyPath rel) ∧ rel = joinPath (keyPath rel) ∧ keyPath rel ≠ keyPath CANONICAL_OUTPUT := by
  obtain ⟨head, untailed, whole⟩ := checked_keyPath checked
  obtain ⟨-, below, -⟩ := evidenceRelpathChecked_ok checked
  cases parts : keyPath rel with
  | nil =>
    rw [parts] at head
    cases head
  | cons directory rest =>
    rw [parts] at head untailed whole
    obtain rfl := Option.some.inj head
    refine ⟨.inr (.inl ⟨rfl, ?_, ?_⟩), whole, ?_⟩
    · rintro rfl
      rw [whole] at below
      exact absurd below (by decide)
    · rintro rfl
      exact untailed rfl
    · rw [show keyPath CANONICAL_OUTPUT = [outputsName, ⟨"output.md", by decide⟩] from by decide]
      intro same
      exact absurd (List.cons.inj same).1 (by decide)

/-- A record is found as the papers have it. -/
theorem readEvidenceBytes_papers (path : String) :
    (∀ content, fs.readEvidenceBytes storage path = .ok content → (papersOf fs storage).cited path = true) ∧
      ∀ error, fs.readEvidenceBytes storage path = .error error → error.isModelFault = true →
        (papersOf fs storage).cited path = false := by
  unfold AgentFs.readEvidenceBytes Papers.cited
  cases checked : AgentFs.evidenceRelpathChecked path with
  | error error => exact ⟨fun _ found => (by cases found), fun _ _ _ => rfl⟩
  | ok rel =>
    obtain ⟨paper, whole, -⟩ := checked_paper checked
    simp only [bind, Except.bind]
    cases got : AgentFs.get storage (fs.key rel) with
    | error error =>
      refine ⟨fun _ found => (by cases found), fun other failed fault => ?_⟩
      cases failed
      have faultless := (stored_infrastructural _ _ : Infrastructural (AgentFs.get storage (fs.key rel))).faultless got
      rw [faultless] at fault
      cases fault
    | ok found =>
      rw [← get_paper whole paper got]
      cases found with
      | none => exact ⟨fun _ found => (by cases found), fun _ _ _ => rfl⟩
      | some content => exact ⟨fun _ _ => rfl, fun _ failed => by cases failed⟩

omit [LawfulStorage σ] in
theorem evidenceMustExist_reads (path : String) :
    fs.evidenceMustExist storage path = (fs.readEvidenceBytes storage path).map fun _ => () := by
  unfold AgentFs.evidenceMustExist AgentFs.readEvidenceBytes
  cases AgentFs.evidenceRelpathChecked path with
  | error error => rfl
  | ok rel =>
    simp only [bind, Except.bind]
    cases AgentFs.get storage (fs.key rel) with
    | error error => rfl
    | ok found => cases found <;> rfl

theorem citationsExist_papers (citations : List String) :
    (fs.citationsExist storage citations = .ok () → citations.all (papersOf fs storage).cited = true) ∧
      ∀ error, fs.citationsExist storage citations = .error error → error.isModelFault = true →
        citations.all (papersOf fs storage).cited = false := by
  induction citations with
  | nil => exact ⟨fun _ => rfl, fun _ failed => by cases failed⟩
  | cons path citations ih =>
    obtain ⟨found, missing⟩ := @readEvidenceBytes_papers σ _ _ fs storage path
    unfold AgentFs.citationsExist
    rw [evidenceMustExist_reads, List.all_cons]
    cases read : fs.readEvidenceBytes storage path with
    | error error =>
      refine ⟨fun found => (by cases found), fun other failed fault => ?_⟩
      cases failed
      rw [missing error read fault]
      rfl
    | ok content =>
      rw [found content read, Bool.true_and]
      exact ih

/-- An output is persisted if it cites what there is, and the model's mistakes are that it does not. -/
theorem persistOutput_papers (attached : Attached fs) (body : String) (citations : List String) :
    (∀ after, fs.persistOutput body citations storage = .ok after → (papersOf fs storage).cites citations = true ∧
        papersOf fs after = Function.update (papersOf fs storage) (keyPath CANONICAL_OUTPUT) (some (.text body))) ∧
      ∀ error, fs.persistOutput body citations storage = .error error → error.isModelFault = true →
        (papersOf fs storage).cites citations = false := by
  obtain ⟨exist, missing⟩ := @citationsExist_papers σ _ _ fs storage citations
  unfold AgentFs.persistOutput Papers.cites
  simp only [bind, Except.bind]
  cases citations.isEmpty with
  | true => exact ⟨fun _ written => (by cases written), fun _ _ _ => rfl⟩
  | false =>
    simp only [Bool.false_eq_true, if_false]
    cases found : fs.citationsExist storage citations with
    | error error =>
      refine ⟨fun _ written => (by cases written), fun other failed fault => ?_⟩
      cases failed
      rw [missing error found fault]
      rfl
    | ok done =>
      refine ⟨fun after written => ⟨by rw [exist found]; rfl, ?_⟩, fun error failed fault => ?_⟩
      · exact papersOf_sets attached (show IsPaper (keyPath CANONICAL_OUTPUT) from by decide) (put_spec written).2
      · rw [(stored_infrastructural _ _ : Infrastructural (AgentFs.put storage _ _)).faultless failed] at fault
        cases fault

end Outputs

end Coral.Proofs

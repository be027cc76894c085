import Coral.Proofs.AgentKeyspace
import Coral.Proofs.DiskRefinement
import Coral.Proofs.StatusPin

/-! A graph on the disk beside the same graph in memory. Whatever its agents ask, in any order
and with any of their calls cut short, they are answered the same. -/

namespace Coral.Proofs
open Coral.Library Coral.Temporal LawfulStorage

/-- What a workflow is answered. -/
inductive ActivityAnswer where
  | opened (result : Except FsError Unit)
  | called (result : Except String ToolCallOutcome)
  | persisted (result : Except PersistError OutputId)
  | rewritten (result : Except FsError Observation)
  | reconciled (result : Except ReconcileError ReconcileChildrenOutput)
  | written (result : Except FsError Unit)
  | registered (result : Except DbError RegisterChildOutcome)
  | seeded (result : Except FsError Seed)
  | observed (result : Option (Except FsError Observation))
deriving DecidableEq

/-- An activity that writes, or one that answers with what is there. -/
inductive AgentCall where
  | perform (event : Scheduled)
  | buildSeed (agentId : AgentId) (mandate : Mandate) (triggers : List Trigger) (humanOps : List HumanOp)
      (mandatePatches : List MandatePatch) (clock : Clock) (writes : Nat)
  | readFs (agentId : AgentId) (op : FsNavOp)

section Calls

variable {σ : Type} [AgentStorage σ] (codec : Codec) (render : Content → String) (graphId : GraphId)

def Scheduled.perform (event : Scheduled) (files : Stopping σ) (db : FaultyDb) :
    ActivityAnswer × Stopping σ × FaultyDb :=
  let handle := FsHandle.forAgent graphId event.agentId
  match event.activity with
  | .buildSeed mandate =>
    let (result, after) := buildSeedFs handle mandate event.clock files
    (.opened result, after, db)
  | .executeTool registry allowedTools call =>
    let (result, after) := executeTool handle registry allowedTools call event.clock files
    (.called result, after, db)
  | .persistOutput body citations =>
    let (result, after, rows) :=
      persistOutputImpl codec event.clock event.agentId handle.storagePrefix body citations files db
    (.persisted result, after, rows)
  | .applyFsOps mandate ops =>
    let (result, after) := applyFsOpsImpl handle mandate ops event.clock files
    (.rewritten result, after, db)
  | .reconcileChildren sources conflict now =>
    let (result, after) := reconcileChildrenImpl codec ⟨graphId, event.agentId, sources, conflict⟩ now event.clock files
    (.reconciled result, after, db)
  | .persistRetirement reason retiredAt =>
    let (result, after) := persistRetirement codec handle reason retiredAt files
    (.written result, after, db)
  | .appendDecisionLog entry =>
    let (result, after) := appendDecisionLogImpl codec handle entry files
    (.written result, after, db)
  | .registerChild childAgentName childTools childAgentId =>
    let (result, rows) := registerChildImpl graphId event.agentId childAgentName childTools childAgentId db
    (.registered result, files, rows)

/-- The files and the rows of a graph. -/
def answerAgent (state : σ × StructuralDb) : AgentCall → ActivityAnswer × σ × StructuralDb
  | .perform event =>
    let (answer, files, db) := event.perform codec graphId (⟨state.1, event.writes, []⟩ : Stopping σ) ⟨state.2, event.calls⟩
    (answer, files.storage, db.db)
  | .buildSeed agentId mandate triggers humanOps mandatePatches clock writes =>
    let (result, files) := buildSeedImpl mandate (.forAgent graphId agentId) triggers humanOps mandatePatches clock
      (⟨state.1, writes, []⟩ : Stopping σ)
    (.seeded result, files.storage, state.2)
  | .readFs agentId op => (.observed (readFsImpl render (.forAgent graphId agentId) op state.1), state)

def agentCalls : Machine (σ × StructuralDb) AgentCall ActivityAnswer :=
  ⟨fun state call => some ((answerAgent codec render graphId state call).2, [(answerAgent codec render graphId state call).1])⟩

theorem agentCalls_step {state after : σ × StructuralDb} {call : AgentCall} {answer : ActivityAnswer}
    (answered : answerAgent codec render graphId state call = (answer, after)) :
    (agentCalls codec render graphId).step state call = some (after, [answer]) := by
  change some ((answerAgent codec render graphId state call).2, [(answerAgent codec render graphId state call).1]) = _
  rw [answered]

/-- The activities of a graph are these calls. -/
theorem perform_step [LawfulStorage σ] (state : Workspace σ) (event : Scheduled) :
    (answerAgent codec render graphId (state.files, state.db) (.perform event)).2 =
      ((state.step codec graphId event).files, (state.step codec graphId event).db) := by
  obtain ⟨agentId, activity, clock, writes, calls⟩ := event
  cases activity <;> rfl

end Calls

/-- The keys and the listings that a call comes to are among these. -/
def AgentCall.Within (keys reads starts : String → Prop) (graphId : GraphId) : AgentCall → Prop
  | .perform event => Serves keys starts (.openForAgent graphId event.agentId) ∧
    match event.activity with
    | .persistOutput _ citations => CitedKeys reads (.openForAgent graphId event.agentId) citations
    | .applyFsOps _ ops => NotedKeys keys (.openForAgent graphId event.agentId) ops
    | .reconcileChildren sources _ _ =>
      ∀ source ∈ sources, reads ((AgentFs.openForAgent graphId source.childRef.agentId).key CANONICAL_OUTPUT)
    | _ => True
  | .buildSeed agentId _ _ _ _ _ _ => Serves keys starts (.openForAgent graphId agentId) ∧
    reads ((AgentFs.openForAgent graphId agentId).key STATUS_NOTE_PATH)
  | .readFs agentId op => Lockstep.ReadKeys reads starts (.openForAgent graphId agentId) op

namespace Lockstep

variable {σ τ : Type} [AgentStorage σ] [AgentStorage τ] {rel : σ → τ → Prop} {keys reads starts : String → Prop}
  {codec : Codec} {graphId : GraphId}

/-- An activity on stores that are alike. -/
theorem perform (lockstep : Lockstep rel keys reads starts) {event : Scheduled} {first : Stopping σ} {second : Stopping τ}
    (within : (AgentCall.perform event).Within keys reads starts graphId) (alike : Alongside rel first second) (db : FaultyDb) :
    ∃ answer one two rows, event.perform codec graphId first db = (answer, one, rows) ∧
      event.perform codec graphId second db = (answer, two, rows) ∧ rel one.storage two.storage := by
  have stopping := lockstep.stopping
  obtain ⟨agentId, activity, clock, writes, calls⟩ := event
  obtain ⟨serves, within⟩ := within
  unfold Scheduled.perform
  rw [← attach_forAgent] at serves
  cases activity with
  | buildSeed mandate =>
    obtain ⟨result, _, _, one, two, next⟩ := (stopping.openWithStorage serves alike mandate clock).cases
    unfold buildSeedFs
    simp only [one, two]
    cases result with
    | error error => exact ⟨_, _, _, _, rfl, rfl, next.1⟩
    | ok fs => exact ⟨_, _, _, _, rfl, rfl, next.1⟩
  | executeTool registry allowedTools call =>
    obtain ⟨result, _, _, one, two, next⟩ := (stopping.executeTool serves alike registry allowedTools call clock).cases
    simp only [one, two]
    exact ⟨_, _, _, _, rfl, rfl, next.1⟩
  | persistOutput body citations =>
    obtain ⟨result, _, _, _, one, two, next⟩ := @Lockstep.persistOutputImpl _ _ _ _ _ _ _ _ _ _ citations _ _ codec agentId
      stopping _ serves alike clock body (by rw [attach_forAgent]; exact within) db
    simp only [one, two]
    exact ⟨_, _, _, _, rfl, rfl, next.1⟩
  | applyFsOps mandate ops =>
    obtain ⟨result, _, _, one, two, next⟩ := (stopping.applyFsOpsImpl serves alike mandate
      (show NotedKeys keys (.attach (FsHandle.forAgent graphId agentId).storagePrefix) ops by
        rw [attach_forAgent]
        exact within) clock).cases
    simp only [one, two]
    exact ⟨_, _, _, _, rfl, rfl, next.1⟩
  | reconcileChildren sources conflict now =>
    rw [attach_forAgent] at serves
    obtain ⟨result, _, _, one, two, next⟩ := (@Lockstep.reconcileChildrenImpl _ _ _ _ _ _ _ _ _ _ codec stopping
      ⟨graphId, agentId, sources, conflict⟩ serves within alike now clock).cases
    simp only [one, two]
    exact ⟨_, _, _, _, rfl, rfl, next.1⟩
  | persistRetirement reason retiredAt =>
    obtain ⟨result, _, _, one, two, next⟩ := (@Lockstep.persistRetirement _ _ _ _ _ _ _ _ _ _ codec stopping _ serves alike
      reason retiredAt).cases
    simp only [one, two]
    exact ⟨_, _, _, _, rfl, rfl, next.1⟩
  | appendDecisionLog entry =>
    obtain ⟨result, _, _, one, two, next⟩ := (@Lockstep.appendDecisionLogImpl _ _ _ _ _ _ _ _ _ _ codec stopping _ serves
      alike entry).cases
    simp only [one, two]
    exact ⟨_, _, _, _, rfl, rfl, next.1⟩
  | registerChild childAgentName childTools childAgentId => exact ⟨_, _, _, _, rfl, rfl, alike.1⟩

/-- One call on stores that are alike: the same answer, and the same rows. -/
theorem answer (lockstep : Lockstep rel keys reads starts) (render : Content → String) {first : σ} {second : τ}
    {db : StructuralDb} {call : AgentCall} (within : call.Within keys reads starts graphId) (alike : rel first second) :
    ∃ answer one two rows, answerAgent codec render graphId (first, db) call = (answer, one, rows) ∧
      answerAgent codec render graphId (second, db) call = (answer, two, rows) ∧ rel one two := by
  cases call with
  | perform event =>
    obtain ⟨answer, one, two, rows, left, right, next⟩ := @Lockstep.perform _ _ _ _ _ _ _ _ codec graphId lockstep event
      ⟨first, event.writes, []⟩ ⟨second, event.writes, []⟩ within ⟨alike, rfl⟩ ⟨db, event.calls⟩
    unfold answerAgent
    simp only [left, right]
    exact ⟨_, _, _, _, rfl, rfl, next⟩
  | buildSeed agentId mandate triggers humanOps mandatePatches clock writes =>
    obtain ⟨serves, status⟩ := within
    rw [← attach_forAgent] at serves status
    obtain ⟨result, _, _, one, two, next⟩ := (lockstep.stopping.buildSeedImpl serves status
      (show Alongside rel ⟨first, writes, []⟩ ⟨second, writes, []⟩ from ⟨alike, rfl⟩) mandate triggers humanOps
      mandatePatches clock).cases
    unfold answerAgent
    simp only [one, two]
    exact ⟨_, _, _, _, rfl, rfl, next.1⟩
  | readFs agentId op =>
    change ReadKeys reads starts (.openForAgent graphId agentId) op at within
    rw [← attach_forAgent] at within
    unfold answerAgent
    simp only [lockstep.readFsImpl alike render within]
    exact ⟨_, _, _, _, rfl, rfl, alike⟩

theorem run (lockstep : Lockstep rel keys reads starts) (render : Content → String) {first : σ} {second : τ}
    {db : StructuralDb} {calls : List AgentCall} (within : ∀ call ∈ calls, call.Within keys reads starts graphId)
    (alike : rel first second) :
    ∃ answers one two rows, (agentCalls codec render graphId).run (first, db) calls = some ((one, rows), answers) ∧
      (agentCalls codec render graphId).run (second, db) calls = some ((two, rows), answers) ∧ rel one two := by
  induction calls generalizing first second db with
  | nil => exact ⟨[], first, second, db, rfl, rfl, alike⟩
  | cons call calls ih =>
    rw [List.forall_mem_cons] at within
    obtain ⟨answer, _, _, _, left, right, next⟩ := @Lockstep.answer _ _ _ _ _ _ _ _ codec graphId lockstep render first second
      db call within.1 alike
    obtain ⟨answers, one, two, rows, ran, ran', last⟩ := ih within.2 next
    refine ⟨answer :: answers, one, two, rows, ?_, ?_, last⟩
    · exact (agentCalls codec render graphId).run_cons.mpr
        ⟨_, [answer], answers, agentCalls_step codec render graphId left, ran, rfl⟩
    · exact (agentCalls codec render graphId).run_cons.mpr
        ⟨_, [answer], answers, agentCalls_step codec render graphId right, ran', rfl⟩

end Lockstep

section Filed

def retirementName : Name := ⟨"retirement.json", by decide⟩

def outputsName : Name := ⟨"outputs", by decide⟩

def filedDirs : List Name := [evidenceName, conflictsName, decisionsName, outputsName]

/-- Notes that lie in no other's way, be it with the temporary file of a put, and that a listing
shows. The runtime's own are among them. -/
structure Notable (notes : List Name → Prop) : Prop where
  sidecar : notes [tailName]
  status : notes [statusName]
  apart : ∀ first second, notes first → notes second → first <+: second → first = second
  beside : ∀ first second, notes first → notes second → ∀ pid counter, ¬ tmpPathFor first pid counter <+: second
  shown : ∀ path, notes path → ¬ Hidden [] path

/-- The paths of an agent's files, with these notes. -/
inductive Filed (notes : List Name → Prop) : List Name → Prop where
  | alone {name : Name} (member : name = mandateName ∨ name = retirementName) : Filed notes [name]
  | among {directory name : Name} (member : directory ∈ filedDirs) (lasting : containsText name.text ".tmp." = false) :
      Filed notes [directory, name]
  | note {path : List Name} (noted : notes path) : Filed notes (notesName :: path)

variable {notes : List Name → Prop} {path other : List Name}

theorem Filed.nonempty (filed : Filed notes path) : path ≠ [] := by
  cases filed <;> exact List.cons_ne_nil _ _

/-- None lies below another. -/
theorem Filed.apart (notable : Notable notes) (filed : Filed notes path) (filed' : Filed notes other)
    (above : path <+: other) : path = other := by
  cases filed with
  | alone member =>
    cases filed' with
    | alone member' => exact above.eq_of_length rfl
    | among member' lasting =>
      obtain ⟨rfl, -⟩ := List.cons_prefix_cons.mp above
      rcases member with rfl | rfl <;> exact absurd member' (by decide)
    | note noted =>
      obtain ⟨rfl, -⟩ := List.cons_prefix_cons.mp above
      rcases member with same | same <;> exact absurd same (by decide)
  | among member lasting =>
    cases filed' with
    | alone member' => exact absurd above.length_le (by simp)
    | among member' lasting' => exact above.eq_of_length rfl
    | note noted =>
      obtain ⟨rfl, -⟩ := List.cons_prefix_cons.mp above
      exact absurd member (by decide)
  | note noted =>
    cases filed' with
    | alone member' =>
      obtain ⟨rfl, -⟩ := List.cons_prefix_cons.mp above
      rcases member' with same | same <;> exact absurd same (by decide)
    | among member' lasting =>
      obtain ⟨rfl, -⟩ := List.cons_prefix_cons.mp above
      exact absurd member' (by decide)
    | note noted' => rw [notable.apart _ _ noted noted' (List.cons_prefix_cons.mp above).2]

/-- No temporary file comes to be at another file, or above one. -/
theorem Filed.beside (notable : Notable notes) (filed : Filed notes path) (filed' : Filed notes other) (pid : UInt32)
    (counter : UInt64) : ¬ tmpPathFor path pid counter <+: other := by
  intro above
  cases filed with
  | @alone name member =>
    change [tmpName name pid.toNat counter.toNat] <+: other at above
    have marked := temporary_tmpName name pid.toNat counter.toNat
    cases filed' with
    | @alone name' member' =>
      rw [List.cons_prefix_cons.mp above |>.1] at marked
      rcases member' with rfl | rfl <;> exact absurd marked (by decide)
    | @among directory name' member' lasting =>
      rw [List.cons_prefix_cons.mp above |>.1] at marked
      have plain : ∀ directory ∈ filedDirs, containsText directory.text ".tmp." = false := by decide
      rw [plain _ member'] at marked
      cases marked
    | note noted =>
      rw [List.cons_prefix_cons.mp above |>.1] at marked
      exact absurd marked (by decide)
  | @among directory name member lasting =>
    change [directory, tmpName name pid.toNat counter.toNat] <+: other at above
    have marked := temporary_tmpName name pid.toNat counter.toNat
    cases filed' with
    | alone member' => exact absurd above.length_le (by simp)
    | among member' lasting' =>
      rw [(List.cons_prefix_cons.mp (List.cons_prefix_cons.mp above).2).1, lasting'] at marked
      cases marked
    | note noted =>
      obtain ⟨rfl, -⟩ := List.cons_prefix_cons.mp above
      exact absurd member (by decide)
  | @note path noted =>
    have proper : path ≠ [] := by
      rintro rfl
      exact absurd (notable.apart [] [tailName] noted notable.sidecar List.nil_prefix) (by decide)
    rw [show notesName :: path = [notesName] ++ path from rfl, tmpPathFor_append proper] at above
    cases filed' with
    | alone member' =>
      obtain ⟨rfl, -⟩ := List.cons_prefix_cons.mp above
      rcases member' with same | same <;> exact absurd same (by decide)
    | among member' lasting =>
      obtain ⟨rfl, -⟩ := List.cons_prefix_cons.mp above
      exact absurd member' (by decide)
    | note noted' => exact notable.beside _ _ noted noted' pid counter (List.cons_prefix_cons.mp above).2

theorem Hidden.drop {root : List Name} (hidden : Hidden root path) : Hidden [] path := by
  rcases hidden with ⟨name, member, git⟩ | temporary
  · refine .inl ⟨name, ?_, git⟩
    rw [List.length_nil, List.drop_zero]
    rw [List.dropLast_drop_eq_drop_dropLast] at member
    exact List.mem_of_mem_drop member
  · exact .inr temporary

theorem Filed.shown (notable : Notable notes) (filed : Filed notes path) : ¬ Hidden [] path := by
  cases filed with
  | alone member =>
    rintro (⟨name, inside, -⟩ | ⟨name, last, temporary⟩)
    · cases inside
    · cases last
      rcases member with rfl | rfl <;> exact absurd temporary (by decide)
  | among member lasting =>
    rintro (⟨name, inside, git⟩ | ⟨name, last, temporary⟩)
    · rw [List.mem_singleton.mp inside] at git
      have other : ∀ directory ∈ filedDirs, directory.text ≠ ".git" := by decide
      exact other _ member git
    · obtain rfl := Option.some.inj last
      exact Bool.false_ne_true (lasting.symm.trans temporary)
  | @note path noted =>
    have proper : path ≠ [] := by
      rintro rfl
      exact absurd (notable.apart [] [tailName] noted notable.sidecar List.nil_prefix) (by decide)
    rintro (⟨name, inside, git⟩ | temporary)
    · rw [List.length_nil, List.drop_zero, List.dropLast_cons_of_ne_nil proper] at inside
      rcases List.mem_cons.mp inside with rfl | deeper
      · exact absurd git (by decide)
      · exact notable.shown path noted (.inl ⟨name, deeper, git⟩)
    · rw [List.getLast?_cons_of_ne_nil proper] at temporary
      exact notable.shown path noted (.inr temporary)

/-- A directory of an agent, as it is listed. -/
def agentScope (graphId : GraphId) (agentId : AgentId) (path : List Name) : Scope :=
  ⟨agentRoot graphId agentId ++ path, "", by decide⟩

theorem agentRoot_inj {graphId otherGraph : GraphId} {agentId otherAgent : AgentId} {path other : List Name}
    (above : agentRoot graphId agentId ++ path <+: agentRoot otherGraph otherAgent ++ other) :
    graphId = otherGraph ∧ agentId = otherAgent ∧ path <+: other := by
  unfold agentRoot at above
  simp only [List.cons_append, List.nil_append, List.cons_prefix_cons, idName_inj, true_and] at above
  obtain ⟨graph, agent, below⟩ := above
  cases graphId
  cases otherGraph
  cases agentId
  cases otherAgent
  exact ⟨congrArg GraphId.mk graph, congrArg AgentId.mk agent, below⟩

/-- The files of every graph's agents. A directory is listed where no file is. -/
def graphKeys {notes : List Name → Prop} (notable : Notable notes) : Keyspace where
  keys key := ∃ graphId agentId path, Filed notes path ∧ key = joinPath (agentRoot graphId agentId ++ path)
  scopes scope := ∃ graphId agentId path, ¬ Filed notes path ∧ scope = agentScope graphId agentId path
  plain := by
    rintro key ⟨graphId, agentId, path, filed, rfl⟩
    exact ⟨_, List.append_ne_nil_of_right_ne_nil _ filed.nonempty, rfl⟩
  apart := by
    rintro key other ⟨graphId, agentId, path, filed, rfl⟩ ⟨graphId', agentId', path', filed', rfl⟩ above
    rw [keyPath_joinPath, keyPath_joinPath] at above
    obtain ⟨rfl, rfl, below⟩ := agentRoot_inj above
    rw [filed.apart notable filed' below]

theorem graphKeys_shown (notable : Notable notes) : (graphKeys notable).Shown := by
  rintro scope ⟨graphId, agentId, path, unfiled, rfl⟩
  constructor
  · rintro ⟨otherGraph, otherAgent, other, filed, same⟩
    have paths := congrArg keyPath same
    rw [keyPath_joinPath, keyPath_joinPath] at paths
    have whole : agentRoot graphId agentId ++ path = agentRoot otherGraph otherAgent ++ other := paths
    obtain ⟨rfl, rfl, -⟩ := agentRoot_inj ⟨[], (List.append_nil _).trans whole⟩
    rw [List.append_cancel_left whole] at unfiled
    exact unfiled filed
  · rintro key ⟨otherGraph, otherAgent, other, filed, rfl⟩ matching hidden
    have above := dir_above matching
    rw [keyPath_joinPath] at above hidden
    obtain ⟨rfl, rfl, -⟩ := agentRoot_inj above
    apply filed.shown notable
    rcases hidden with ⟨name, member, git⟩ | ⟨name, last, temporary⟩
    · refine .inl ⟨name, ?_, git⟩
      rw [List.length_nil, List.drop_zero]
      rw [List.dropLast_drop_eq_drop_dropLast, List.dropLast_append_of_ne_nil filed.nonempty] at member
      change name ∈ (agentRoot graphId agentId ++ other.dropLast).drop (agentRoot graphId agentId ++ path).length at member
      rw [List.length_append, List.drop_append, List.drop_eq_nil_of_le (Nat.le_add_right _ _), List.nil_append] at member
      exact List.mem_of_mem_drop member
    · refine .inr ⟨name, ?_, temporary⟩
      rwa [List.getLast?_append_of_ne_nil _ filed.nonempty] at last

/-- No temporary file of an agent's comes to be in the way of another file. -/
theorem graphKeys_beside (notable : Notable notes) (pid : UInt32) : (graphKeys notable).Beside pid := by
  rintro key other ⟨graphId, agentId, path, filed, rfl⟩ ⟨otherGraph, otherAgent, path', filed', rfl⟩ counter above
  rw [keyPath_joinPath, keyPath_joinPath, tmpPathFor_append filed.nonempty] at above
  obtain ⟨-, -, below⟩ := agentRoot_inj above
  exact filed.beside notable filed' pid counter below

theorem graphKeys_lockstep (notable : Notable notes) (pid : UInt32) :
    Lockstep (Reflects (graphKeys notable) pid fun _ _ => none) (graphKeys notable).keys (graphKeys notable).keys
      (graphKeys notable).starts :=
  Reflects.lockstep (graphKeys_shown notable) (graphKeys_beside notable pid) fun _ _ _ => ⟨rfl, fun _ => rfl⟩

theorem graphKeys_empty (notable : Notable notes) (pid : UInt32) :
    Reflects (graphKeys notable) pid (fun _ _ => none) (emptyDisk pid) ⟨∅⟩ := ⟨Mirrors.empty _, rfl, rfl⟩

section Serving

variable {notes : List Name → Prop} (notable : Notable notes) (graphId : GraphId) (agentId : AgentId)

theorem graphKeys_file {path : List Name} (filed : Filed notes path) :
    (graphKeys notable).keys ((AgentFs.openForAgent graphId agentId).key (joinPath path)) :=
  ⟨graphId, agentId, path, filed, key_joinPath filed.nonempty⟩

theorem below_joinPath {path : List Name} (nonempty : path ≠ []) (rest : String) :
    below path rest = joinPath path ++ "/" ++ rest := by
  induction path with
  | nil => exact (nonempty rfl).elim
  | cons name path ih =>
    change name.text ++ "/" ++ below path rest = _
    by_cases last : path = []
    · rw [last, show joinPath [name] = name.text from by simp [joinPath]]
      rfl
    · rw [ih last, show name :: path = [name] ++ path from rfl, joinPath_append (List.cons_ne_nil _ _) last,
        show joinPath [name] = name.text from by simp [joinPath]]
      simp only [String.append_assoc]

theorem key_below (rest : String) :
    (AgentFs.openForAgent graphId agentId).key rest = below (agentRoot graphId agentId) rest := by
  rw [below_joinPath (show agentRoot graphId agentId ≠ [] from List.cons_ne_nil _ _), joinPath_agentRoot,
    openForAgent_starts]
  rfl

theorem agentScope_text (path : List Name) :
    (agentScope graphId agentId path).text =
      (AgentFs.openForAgent graphId agentId).key (if path = [] then "" else joinPath path ++ "/") := by
  rw [key_below]
  unfold Scope.text agentScope below
  rw [List.foldr_append]
  congr 1
  split
  · rename_i root
    rw [root]
    rfl
  · rename_i proper
    exact (below_joinPath proper "").trans String.append_empty

theorem graphKeys_start {path : List Name} (unfiled : ¬ Filed notes path) :
    (graphKeys notable).starts ((AgentFs.openForAgent graphId agentId).key (if path = [] then "" else joinPath path ++ "/")) :=
  ⟨_, ⟨graphId, agentId, path, unfiled, rfl⟩, agentScope_text graphId agentId path⟩

/-- A text without a slash that is longer than two dots is a name. -/
theorem long_name {text : String} (long : 2 < text.toList.length) (whole : '/' ∉ text.toList) :
    ∃ name : Name, name.text = text := by
  refine ⟨⟨text, ?_, ?_, ?_, whole⟩, rfl⟩ <;> rintro rfl <;> exact absurd long (by decide)

/-- With less than two dots it is not taken for a temporary file's. -/
theorem lasting_name {text : String} (dots : text.toList.count '.' < 2) : containsText text ".tmp." = false := by
  rw [containsText, decide_eq_false_iff_not]
  intro within
  have more := within.sublist.count_le '.'
  have temporary : ".tmp.".toList.count '.' = 2 := by decide
  omega

theorem graphKeys_among {directory : Name} {text : String} (member : directory ∈ filedDirs) (long : 2 < text.toList.length)
    (whole : '/' ∉ text.toList) (dots : text.toList.count '.' < 2) :
    (graphKeys notable).keys ((AgentFs.openForAgent graphId agentId).key (directory.text ++ "/" ++ text)) := by
  obtain ⟨name, rfl⟩ := long_name long whole
  have path : directory.text ++ "/" ++ name.text = joinPath [directory, name] := by
    apply String.toList_inj.mp
    simp [joinPath]
  rw [path]
  exact graphKeys_file notable graphId agentId (.among member (lasting_name dots))

/-- A word with the ending of a record. -/
theorem graphKeys_word {directory : Name} {body : List Char} (member : directory ∈ filedDirs)
    (words : ∀ char ∈ body, wordChar char = true) :
    (graphKeys notable).keys
      ((AgentFs.openForAgent graphId agentId).key (directory.text ++ "/" ++ (String.ofList body ++ ".json"))) := by
  obtain ⟨name, text, -⟩ := word_name words
  have path : directory.text ++ "/" ++ (String.ofList body ++ ".json") = joinPath [directory, name] := by
    rw [← text]
    apply String.toList_inj.mp
    simp [joinPath]
  rw [path]
  exact graphKeys_file notable graphId agentId (.among member (by rw [text]; exact word_lasting words))

theorem note_filed {name : Name} (noted : notes [name]) : ∃ path, Filed notes path ∧ "notes/" ++ name.text = joinPath path := by
  refine ⟨_, .note noted, ?_⟩
  apply String.toList_inj.mp
  simp [joinPath, notesName]

theorem runtimeFiles_filed (notable : Notable notes) : ∀ rest ∈ runtimeFiles, ∃ path, Filed notes path ∧ rest = joinPath path := by
  have alone : ∀ name, name = mandateName ∨ name = retirementName → ∃ path, Filed notes path ∧ name.text = joinPath path :=
    fun name member => ⟨[name], .alone member, by simp [joinPath]⟩
  have among : ∀ directory ∈ filedDirs, ∀ name : Name, containsText name.text ".tmp." = false →
      ∃ path, Filed notes path ∧ directory.text ++ "/" ++ name.text = joinPath path := by
    intro directory member name lasting
    refine ⟨_, .among member lasting, ?_⟩
    apply String.toList_inj.mp
    simp [joinPath]
  intro rest member
  simp only [runtimeFiles, openedKeys, List.mem_cons, List.not_mem_nil, or_false] at member
  rcases member with rfl | rfl | rfl | rfl | rfl
  · exact among outputsName (by decide) ⟨"output.md", by decide⟩ (by decide)
  · exact alone retirementName (.inr rfl)
  · exact alone mandateName (.inl rfl)
  · exact among evidenceName (by decide) tailName (by decide)
  · exact note_filed notable.sidecar

theorem unfiled_dir (notable : Notable notes) {directory : Name} (other : directory ≠ mandateName ∧ directory ≠ retirementName) :
    ¬ Filed notes [directory] := by
  intro filed
  generalize same : [directory] = path at filed
  cases filed with
  | alone member =>
    cases same
    exact member.elim other.1 other.2
  | among member lasting => cases same
  | note noted =>
    cases same
    exact absurd (notable.apart [] [tailName] noted notable.sidecar List.nil_prefix) (by decide)

theorem graphKeys_serves : Serves (graphKeys notable).keys (graphKeys notable).starts (.openForAgent graphId agentId) where
  own rest member := by
    obtain ⟨path, filed, rfl⟩ := runtimeFiles_filed notable rest member
    exact graphKeys_file notable graphId agentId filed
  recorded observed := by
    obtain ⟨body, path, words⟩ := relpath_word observed
    rw [path]
    exact @graphKeys_word notes notable graphId agentId evidenceName body (by decide) words
  conflicts alternatives resolution := by
    unfold AgentFs.conflictKey ConflictId.new
    rw [String.append_assoc]
    exact @graphKeys_word notes notable graphId agentId conflictsName _ (by decide) (wordChar_hexDigits _)
  decisions tick step := by
    have digits : ∀ value : Nat, ∀ char ∈ (toString value).toList, char.isDigit = true := by
      intro value char member
      rw [show toString value = value.repr from rfl, Nat.toList_repr] at member
      exact Nat.isDigit_of_mem_toDigits (by decide) (by decide) member
    have free : ∀ (char : Char) (value : Nat), char.isDigit = false → char ∉ (toString value).toList := by
      intro char value odd member
      rw [digits value char member] at odd
      cases odd
    have whole : ("decisions/" ++ toString tick ++ "-" ++ toString step ++ ".jsonl") =
        decisionsName.text ++ "/" ++ (toString tick ++ "-" ++ toString step ++ ".jsonl") := by
      simp only [String.append_assoc]
      rfl
    have chars : (toString tick ++ "-" ++ toString step ++ ".jsonl").toList =
        (toString tick).toList ++ ['-'] ++ (toString step).toList ++ ".jsonl".toList := by
      simp only [String.toList_append]
      rfl
    rw [whole]
    refine graphKeys_among notable graphId agentId (by decide) ?_ ?_ ?_
    · rw [chars, List.length_append]
      exact Nat.lt_of_lt_of_le (by decide) (Nat.le_add_left _ _)
    · rw [chars]
      simp only [List.mem_append, not_or]
      exact ⟨⟨⟨free '/' tick (by decide), by decide⟩, free '/' step (by decide)⟩, by decide⟩
    · rw [chars]
      simp only [List.count_append, List.count_eq_zero.mpr (free '.' tick (by decide)),
        List.count_eq_zero.mpr (free '.' step (by decide))]
      decide
  indexed dir member := by
    have listed : ∀ directory : Name, directory ≠ mandateName ∧ directory ≠ retirementName →
        (graphKeys notable).starts ((AgentFs.openForAgent graphId agentId).key (directory.text ++ "/")) := by
      intro directory other
      have start := graphKeys_start notable graphId agentId (unfiled_dir notable other)
      rwa [if_neg (List.cons_ne_nil _ _), show joinPath [directory] = directory.text from by simp [joinPath]] at start
    simp only [runtimeDirs, List.mem_cons, List.not_mem_nil, or_false] at member
    rcases member with rfl | rfl | rfl
    · exact listed evidenceName (by decide)
    · exact listed notesName (by decide)
    · exact listed outputsName (by decide)

end Serving

/-- A call that names files where there are files, and directories where there are none. -/
def AgentCall.Tidy (notes : List Name → Prop) : AgentCall → Prop
  | .perform event =>
    match event.activity with
    | .persistOutput _ citations =>
      ∀ path ∈ citations, ∀ rest, AgentFs.evidenceRelpathChecked path = .ok rest → Filed notes (keyPath rest)
    | .applyFsOps _ ops => ∀ op ∈ ops, ∀ path, notePath op.path = some path → notes path
    | _ => True
  | .buildSeed _ _ _ _ _ _ _ => True
  | .readFs _ (.read path) => ∀ rest, AgentFs.cleanRelpath path = .ok rest → Filed notes (keyPath rest)
  | .readFs _ (.list path) => ∀ rest, AgentFs.cleanRelpath path = .ok rest → ¬ Filed notes (keyPath rest)
  | .readFs _ (.search _ path) =>
    ∀ scope ∈ path, ∀ rest, AgentFs.cleanRelpath scope = .ok rest → ¬ Filed notes (keyPath rest)

theorem Filed.root : ¬ Filed notes [] := fun filed => filed.nonempty rfl

/-- What the keys in a directory of plain names start with. -/
def dirText (dir : List Name) : String := if dir = [] then "" else joinPath dir ++ "/"

theorem dirPrefix_dir {fs : AgentFs} {path : String} {dir : List Name}
    (cleaned : AgentFs.cleanRelpath path = .ok (joinPath dir)) : fs.dirPrefix path = .ok (fs.key (dirText dir)) := by
  unfold AgentFs.dirPrefix dirText
  rw [cleaned]
  by_cases root : dir = []
  · subst root
    rfl
  · rw [if_neg root]
    change Except.ok (fs.key (if _ then _ else _)) = _
    rw [if_neg]
    rintro (empty | slash)
    · have parts_empty := segments_joinPath root
      rw [empty] at parts_empty
      have first : "" ∈ dir.map (·.text) := parts_empty ▸ List.mem_singleton_self _
      obtain ⟨name, -, blank⟩ := List.mem_map.mp first
      exact name.plain.1 blank
    · obtain ⟨front, whole⟩ := List.isSuffixOf_iff_suffix.mp slash
      have parts_last := segments_joinPath root
      rw [show joinPath dir = String.ofList front ++ "/" ++ "" from by
        apply String.toList_inj.mp
        rw [← whole]
        simp, segments_append] at parts_last
      have last : "" ∈ dir.map (·.text) := parts_last ▸ List.mem_append_right _ (List.mem_singleton_self _)
      obtain ⟨name, -, blank⟩ := List.mem_map.mp last
      exact name.plain.1 blank

theorem graphKeys_dirPrefix (notable : Notable notes) (graphId : GraphId) (agentId : AgentId) {path start : String}
    (unfiled : ∀ rest, AgentFs.cleanRelpath path = .ok rest → ¬ Filed notes (keyPath rest))
    (found : (AgentFs.openForAgent graphId agentId).dirPrefix path = .ok start) : (graphKeys notable).starts start := by
  obtain ⟨rest, cleaned, -⟩ := bind_ok found
  obtain ⟨dir, rfl⟩ := cleanRelpath_ok cleaned
  have other := unfiled _ cleaned
  rw [keyPath_joinPath] at other
  rw [dirPrefix_dir cleaned] at found
  obtain rfl := Except.ok.inj found
  exact graphKeys_start notable graphId agentId other

theorem AgentCall.Tidy.within (notable : Notable notes) {call : AgentCall} (tidy : call.Tidy notes) (graphId : GraphId) :
    call.Within (graphKeys notable).keys (graphKeys notable).keys (graphKeys notable).starts graphId := by
  cases call with
  | perform event =>
    refine ⟨graphKeys_serves notable graphId event.agentId, ?_⟩
    obtain ⟨agentId, activity, clock, writes, calls⟩ := event
    cases activity with
    | persistOutput body citations =>
      intro path member rest checked
      have filed := tidy path member rest checked
      rw [(checked_keyPath checked).2.2]
      exact graphKeys_file notable graphId agentId filed
    | applyFsOps mandate ops =>
      intro planned accepted entry member
      obtain ⟨op, among, path, named, rfl⟩ := forall₂_mem_right (planOps_ok accepted) member
      have filed : Filed notes (notesName :: path) := .note (tidy op among path named)
      have key : noteKey (.openForAgent graphId agentId) path =
          (AgentFs.openForAgent graphId agentId).key (joinPath (notesName :: path)) := by
        unfold noteKey
        rw [show notesName :: path = [notesName] ++ path from rfl,
          joinPath_append (List.cons_ne_nil _ _) (isNoteRecord_notePath named).1]
        rfl
      rw [key]
      exact graphKeys_file notable graphId agentId filed
    | reconcileChildren sources conflict now =>
      exact fun source _ => (graphKeys_serves notable graphId _).own CANONICAL_OUTPUT (by decide)
    | _ => trivial
  | buildSeed agentId mandate triggers humanOps mandatePatches clock writes =>
    obtain ⟨path, filed, same⟩ := note_filed notable.status
    refine ⟨graphKeys_serves notable graphId agentId, ?_⟩
    rw [show STATUS_NOTE_PATH = "notes/" ++ statusName.text from rfl, same]
    exact graphKeys_file notable graphId agentId filed
  | readFs agentId op =>
    cases op with
    | read path =>
      intro rest cleaned
      have filed := tidy rest cleaned
      obtain ⟨parts, rfl⟩ := cleanRelpath_ok cleaned
      rw [keyPath_joinPath] at filed
      exact graphKeys_file notable graphId agentId filed
    | list path => exact fun start => graphKeys_dirPrefix notable graphId agentId tidy
    | search query path =>
      intro start found
      cases path with
      | some path => exact graphKeys_dirPrefix notable graphId agentId (tidy path rfl) found
      | none =>
        obtain rfl := Except.ok.inj found
        have root := graphKeys_start notable graphId agentId (@Filed.root notes)
        rwa [if_pos rfl, show (AgentFs.openForAgent graphId agentId).key "" =
          (AgentFs.openForAgent graphId agentId).storagePrefix from String.append_empty] at root

end Filed

/-- On an empty disk a graph's agents are answered as in memory, and leave the same rows. -/
theorem disk_answers_as_memory {notes : List Name → Prop} (notable : Notable notes) (pid : UInt32) (codec : Codec)
    (render : Content → String) (graphId : GraphId) (db : StructuralDb) {calls : List AgentCall}
    (tidy : ∀ call ∈ calls, call.Tidy notes) :
    ∃ answers disk memory rows,
      (agentCalls codec render graphId).run (emptyDisk pid, db) calls = some ((disk, rows), answers) ∧
      (agentCalls codec render graphId).run ((⟨∅⟩ : MemoryStorage), db) calls = some ((memory, rows), answers) ∧
      ∀ agentId path, Filed notes path →
        viewAt disk.store ((AgentFs.openForAgent graphId agentId).key (joinPath path)) =
          viewAt memory ((AgentFs.openForAgent graphId agentId).key (joinPath path)) := by
  obtain ⟨answers, disk, memory, rows, ran, ran', reflects⟩ := @Lockstep.run _ _ _ _ _ _ _ _ codec graphId
    (graphKeys_lockstep notable pid) render _ _ db _ (fun call member => (tidy call member).within notable graphId)
    (graphKeys_empty notable pid)
  refine ⟨answers, disk, memory, rows, ran, ran', ?_⟩
  intro agentId path filed
  exact reflects.mirrors.same _ (graphKeys_file notable graphId agentId filed)

section Examples

/-- Plain notes, none of which is a directory of another's. -/
private def jotted (path : List Name) : Prop := path = [tailName] ∨ path = [statusName]

private theorem jotted_notable : Notable jotted where
  sidecar := .inl rfl
  status := .inr rfl
  apart first second noted noted' above := by
    rcases noted with rfl | rfl <;> rcases noted' with rfl | rfl <;>
      first | rfl | exact absurd (List.cons_prefix_cons.mp above).1 (by decide)
  beside first second noted noted' pid counter :=
    no_temporary (by rcases noted' with rfl | rfl <;> decide) (by rcases noted with rfl | rfl <;> simp)
  shown path noted := by
    rcases noted with rfl | rfl <;> decide

private def jotter : AgentId := ⟨⟨1⟩⟩

private def jotting : List AgentCall :=
  [.perform ⟨jotter, .applyFsOps placeholderMandate [.writeFile "./notes//STATUS.md" "Done."], fun _ => ⟨0⟩, 9, 0⟩,
    .readFs jotter (.read "notes/STATUS.md")]

private def rendered : Content → String
  | .text body => body
  | _ => ""

private def blankDb : StructuralDb := ⟨[], [], [], [], ∅, []⟩

/-- A note is written and read back, on the disk as in memory. -/
theorem disk_answers_as_memory_note : ∃ answers disk memory rows,
    (agentCalls (listedCodec [] []) rendered ⟨⟨0⟩⟩).run (emptyDisk 7, blankDb) jotting =
        some ((disk, rows), answers) ∧
      (agentCalls (listedCodec [] []) rendered ⟨⟨0⟩⟩).run ((⟨∅⟩ : MemoryStorage), blankDb) jotting =
        some ((memory, rows), answers) ∧
      answers = [.rewritten (.ok (.success "notes updated")), .observed (some (.ok (.success "Done.")))] := by
  have tidy : ∀ call ∈ jotting, call.Tidy jotted := by
    unfold jotting
    rw [List.forall_mem_cons, List.forall_mem_singleton]
    constructor
    · intro op member path named
      rw [List.mem_singleton.mp member] at named
      rw [show notePath (FsOp.writeFile "./notes//STATUS.md" "Done.").path = some [statusName] from by decide] at named
      exact .inr (Option.some.inj named).symm
    · intro rest cleaned
      rw [show AgentFs.cleanRelpath "notes/STATUS.md" = .ok "notes/STATUS.md" from by decide] at cleaned
      rw [← Except.ok.inj cleaned, show keyPath "notes/STATUS.md" = [notesName, statusName] from by decide]
      exact .note (.inr rfl)
  obtain ⟨answers, disk, memory, rows, ran, ran', -⟩ := disk_answers_as_memory jotted_notable 7 (listedCodec [] [])
    rendered ⟨⟨0⟩⟩ blankDb tidy
  refine ⟨answers, disk, memory, rows, ran, ran', ?_⟩
  have answered : ((agentCalls (listedCodec [] []) rendered ⟨⟨0⟩⟩).run ((⟨∅⟩ : MemoryStorage), blankDb) jotting).map
      (·.2) = some [.rewritten (.ok (.success "notes updated")), .observed (some (.ok (.success "Done.")))] := by
    decide +kernel
  rw [ran', Option.map_some] at answered
  exact Option.some.inj answered

end Examples

end Coral.Proofs

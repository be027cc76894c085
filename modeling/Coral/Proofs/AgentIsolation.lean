import Coral.Proofs.BackendTransparency

/-! What the agents of a graph have to do with one another's files. A call writes below its own
agent's root alone, and of the others it reads the outputs of the children that it folds. -/

namespace Coral.Proofs
open Coral.Library Coral.Temporal LawfulStorage

def AgentCall.agentId : AgentCall → AgentId
  | .perform event => event.agentId
  | .buildSeed agentId _ _ _ _ _ _ => agentId
  | .readFs agentId _ => agentId

/-- The children whose outputs the call reads. -/
def AgentCall.children : AgentCall → List AgentId
  | .perform event =>
    match event.activity with
    | .reconcileChildren sources _ _ => sources.map (·.childRef.agentId)
    | _ => []
  | _ => []

/-- The answer says nothing of the database. -/
def AgentCall.filesOnly : AgentCall → Bool
  | .perform event =>
    match event.activity with
    | .persistOutput _ _ | .registerChild _ _ _ => false
    | _ => true
  | _ => true

section Within

variable {graphId : GraphId} {keys reads starts : String → Prop} {agentId : AgentId}

theorem dirPrefix_own {fs : AgentFs} (listed : ∀ rest, starts (fs.key rest)) {path start : String}
    (found : fs.dirPrefix path = .ok start) : starts start := by
  obtain ⟨rest, -, whole⟩ := bind_ok found
  obtain rfl := Except.ok.inj whole
  exact listed _

theorem serves_own {fs : AgentFs} (own : ∀ rest, keys (fs.key rest)) (listed : ∀ rest, starts (fs.key rest)) :
    Serves keys starts fs where
  own rest _ := own rest
  recorded _ := own _
  conflicts alternatives resolution := by
    unfold AgentFs.conflictKey
    rw [String.append_assoc]
    exact own _
  decisions _ _ := own _
  indexed _ _ := listed _

/-- A call keeps to its own agent's files, and to the outputs of its children. -/
theorem AgentCall.within_own {call : AgentCall} (own : ∀ rest, keys ((AgentFs.openForAgent graphId call.agentId).key rest))
    (read : ∀ rest, reads ((AgentFs.openForAgent graphId call.agentId).key rest))
    (listed : ∀ rest, starts ((AgentFs.openForAgent graphId call.agentId).key rest))
    (children : ∀ child ∈ call.children, reads ((AgentFs.openForAgent graphId child).key CANONICAL_OUTPUT)) :
    call.Within keys reads starts graphId := by
  cases call with
  | perform event =>
    refine ⟨serves_own own listed, ?_⟩
    obtain ⟨agentId, activity, clock, writes, calls⟩ := event
    cases activity with
    | persistOutput body citations => exact fun _ _ rest _ => read rest
    | applyFsOps mandate ops =>
      intro planned accepted entry among
      obtain ⟨op, -, path, -, rfl⟩ := forall₂_mem_right (planOps_ok accepted) among
      exact own _
    | reconcileChildren sources conflict now =>
      intro source among
      exact children _ (List.mem_map_of_mem among)
    | _ => trivial
  | buildSeed agentId mandate triggers humanOps mandatePatches clock writes => exact ⟨serves_own own listed, read _⟩
  | readFs agentId op =>
    cases op with
    | read path => exact fun rest _ => read rest
    | list path => exact fun start found => dirPrefix_own listed found
    | search query path =>
      intro start found
      cases path with
      | some path => exact dirPrefix_own listed found
      | none =>
        obtain rfl := Except.ok.inj found
        have root : starts ((AgentFs.openForAgent graphId agentId).key "") := listed ""
        unfold AgentFs.key at root
        rwa [String.append_empty] at root

end Within

section Frame

variable {σ : Type} [AgentStorage σ] [LawfulStorage σ] {graphId : GraphId} {agentId : AgentId}

/-- As it was, at these keys. -/
def Frames (among : String → Prop) (before after : σ) : Prop := ∀ key, among key → viewAt after key = viewAt before key

theorem Frames.sets {among : String → Prop} {before middle after : σ} {key : String} {value : Option Content}
    (frames : Frames among before middle) (sets : Sets middle after key value)
    (apart : ∀ other, among other → keyPath other ≠ keyPath key) : Frames among before after :=
  fun other member => (sets.apart (apart other member)).trans (frames other member)

/-- A store beside itself: what is written at some keys leaves the others as they were. -/
theorem frame_lockstep {among keys : String → Prop}
    (apart : ∀ key, keys key → ∀ other, among other → keyPath other ≠ keyPath key) (before : σ) :
    Lockstep (fun first second : σ => first = second ∧ Frames among before first) keys (fun _ => True) (fun _ => True) where
  reads_keys _ := trivial
  get alike _ := by rw [alike.1]
  list alike _ := by rw [alike.1]
  listed _ _ _ _ _ := trivial
  put {first second key value} alike used := by
    obtain ⟨rfl, frames⟩ := alike
    cases written : AgentStorage.put first key value with
    | error error => exact (rfl : error = error)
    | ok after => exact And.intro rfl (frames.sets (put_ok _ _ _ _ written).2 (apart key used))
  putIfAbsent {first second key value} alike used := by
    obtain ⟨rfl, frames⟩ := alike
    cases written : AgentStorage.putIfAbsent first key value with
    | error error => exact (rfl : error = error)
    | ok made =>
      obtain ⟨outcome, after⟩ := made
      refine And.intro rfl (And.intro rfl ?_)
      cases outcome with
      | created => exact frames.sets (putIfAbsent_created _ _ _ _ written).2.2 (apart key used)
      | existed =>
        intro other member
        rw [← frames other member]
        unfold viewAt
        rw [putIfAbsent_existed _ _ _ _ written]
  delete {first second key} alike used := by
    obtain ⟨rfl, frames⟩ := alike
    cases deleted : AgentStorage.delete first key with
    | error error => exact (rfl : error = error)
    | ok after => exact And.intro rfl (frames.sets (delete_ok _ _ _ deleted).1 (apart key used))

/-- As it was, but for the files of one agent. -/
def Outside (graphId : GraphId) (agentId : AgentId) : σ → σ → Prop := Frames fun key => ¬ agentRoot graphId agentId <+: keyPath key

/-- An agent's files are not below the root of another. -/
theorem agentRoot_apart {other : AgentId} (apart : agentId ≠ other) (rest : String) :
    ¬ agentRoot graphId agentId <+: keyPath ((AgentFs.openForAgent graphId other).key rest) := by
  rw [keyPath_agent]
  intro root
  have within := List.prefix_of_prefix_length_le root (List.prefix_append _ _) (Nat.le_refl _)
  have same := within.eq_of_length rfl
  unfold agentRoot at same
  simp only [List.cons.injEq, idName_inj, and_true, true_and] at same
  exact apart (congrArg AgentId.mk same)

/-- What one agent writes leaves the rest as it was. -/
theorem outside_lockstep (graphId : GraphId) (agentId : AgentId) (before : σ) :
    Lockstep (fun first second : σ => first = second ∧ Outside graphId agentId before first)
      (fun key => ∃ rest, key = (AgentFs.openForAgent graphId agentId).key rest) (fun _ => True) (fun _ => True) := by
  refine frame_lockstep ?_ before
  rintro _ ⟨rest, rfl⟩ other apart same
  rw [keyPath_agent] at same
  exact apart ⟨keyPath rest, same.symm⟩

variable {codec : Codec} {render : Content → String}

/-- One call leaves every other agent's files as they were. -/
theorem answerAgent_outside (files : σ) (db : StructuralDb) (call : AgentCall) :
    Outside graphId call.agentId files (answerAgent codec render graphId (files, db) call).2.1 := by
  obtain ⟨answer, one, two, rows, answered, -, next⟩ := @Lockstep.answer _ _ _ _ _ _ _ _ codec graphId
    (outside_lockstep graphId call.agentId files) render files files db call
    (AgentCall.within_own (fun rest => ⟨rest, rfl⟩) (fun _ => trivial) (fun _ => trivial) fun _ _ => trivial)
    ⟨rfl, fun _ _ => rfl⟩
  rw [answered]
  exact next.2

theorem step_outside (state : Workspace σ) (event : Scheduled) :
    Outside graphId event.agentId state.files (state.step codec graphId event).files := by
  have outside := @answerAgent_outside σ _ _ graphId codec (fun _ => "") state.files state.db (.perform event)
  rw [congrArg Prod.fst (perform_step codec (fun _ => "") graphId state event)] at outside
  exact outside

/-- No run changes a file of an agent that makes no call. -/
theorem others_untouched {files after : σ} {db rows : StructuralDb} {calls : List AgentCall} {answers : List ActivityAnswer}
    (ran : (agentCalls codec render graphId).run (files, db) calls = some ((after, rows), answers)) {key : String}
    (apart : ∀ call ∈ calls, ¬ agentRoot graphId call.agentId <+: keyPath key) : viewAt after key = viewAt files key := by
  induction calls generalizing files db answers with
  | nil =>
    cases ran
    rfl
  | cons call calls ih =>
    obtain ⟨⟨middle, between⟩, first, rest, stepped, rested, rfl⟩ := (agentCalls codec render graphId).run_cons.mp ran
    rw [List.forall_mem_cons] at apart
    obtain ⟨next, -⟩ := Prod.mk.inj (Option.some.inj stepped)
    have outside := @answerAgent_outside σ _ _ graphId codec render files db call key apart.1
    rw [next] at outside
    rw [ih rested apart.2, outside]

end Frame

section Groups

variable {graphId : GraphId} {group : AgentId → Bool}

/-- The keys of the files of a group of agents. -/
def GroupKey (graphId : GraphId) (group : AgentId → Bool) (key : String) : Prop :=
  ∃ agentId rest, group agentId = true ∧ key = (AgentFs.openForAgent graphId agentId).key rest

/-- The files of the group are the same. -/
def GroupAgrees (graphId : GraphId) (group : AgentId → Bool) (first second : MemoryStorage) : Prop :=
  ∀ key, GroupKey graphId group key → first.inner.lookup key = second.inner.lookup key

theorem GroupKey.own {agentId : AgentId} (member : group agentId = true) (rest : String) :
    GroupKey graphId group ((AgentFs.openForAgent graphId agentId).key rest) := ⟨agentId, rest, member, rfl⟩

theorem GroupKey.below {start key : String} (used : GroupKey graphId group start) (below : startsWithText key start = true) :
    GroupKey graphId group key := by
  obtain ⟨agentId, rest, member, rfl⟩ := used
  obtain ⟨more, whole⟩ := List.isPrefixOf_iff_prefix.mp below
  refine ⟨agentId, rest ++ String.ofList more, member, ?_⟩
  apply String.toList_inj.mp
  rw [← whole]
  unfold AgentFs.key
  simp

theorem GroupAgrees.refl (storage : MemoryStorage) : GroupAgrees graphId group storage storage := fun _ _ => rfl

theorem GroupAgrees.symm {first second : MemoryStorage} (agree : GroupAgrees graphId group first second) :
    GroupAgrees graphId group second first := fun key used => (agree key used).symm

theorem GroupAgrees.trans {first second third : MemoryStorage} (agree : GroupAgrees graphId group first second)
    (further : GroupAgrees graphId group second third) : GroupAgrees graphId group first third :=
  fun key used => (agree key used).trans (further key used)

theorem GroupAgrees.insert {first second : MemoryStorage} (agree : GroupAgrees graphId group first second) (key : String)
    (value : Content) : GroupAgrees graphId group ⟨first.inner.insert key value⟩ ⟨second.inner.insert key value⟩ := by
  intro other used
  rw [lookup_insert, lookup_insert, agree other used]

theorem GroupAgrees.list {first second : MemoryStorage} {start : String} (agree : GroupAgrees graphId group first second)
    (used : GroupKey graphId group start) (after : Option String) (limit : Nat) :
    AgentStorage.list first start after limit = AgentStorage.list second start after limit := by
  refine congrArg Except.ok (ListPage.of_congr (first.inner.keys_nodup.filter _) (second.inner.keys_nodup.filter _)
    (fun key => ?_) after limit)
  rw [List.mem_filter, List.mem_filter]
  refine and_congr_left fun below => ?_
  rw [← AList.mem_keys, ← AList.mem_keys, ← AList.lookup_isSome, ← AList.lookup_isSome, agree key (used.below below)]

theorem GroupAgrees.lockstep (graphId : GraphId) (group : AgentId → Bool) :
    Lockstep (GroupAgrees graphId group) (GroupKey graphId group) (GroupKey graphId group) (GroupKey graphId group) where
  reads_keys used := used
  get agree used := congrArg Except.ok (agree _ used)
  list agree used := agree.list used _ _
  put agree used := agree.insert _ _
  putIfAbsent {first second key value} agree used := by
    have answered : ∀ storage : MemoryStorage, AgentStorage.putIfAbsent storage key value =
        if (storage.inner.lookup key).isSome then .ok (.existed, storage)
        else .ok (.created, ⟨storage.inner.insert key value⟩) := fun _ => rfl
    rw [answered, answered, agree key used]
    split
    · exact And.intro rfl agree
    · exact And.intro rfl (agree.insert _ _)
  delete {first second key} agree used := by
    change GroupAgrees graphId group ⟨first.inner.erase key⟩ ⟨second.inner.erase key⟩
    intro other among
    rw [lookup_erase, lookup_erase, agree other among]
  listed {first second start after limit page} agree used got key member :=
    used.below (list_ok first start after limit page got key member).1

variable {codec : Codec} {render : Content → String}

/-- The output is in place before the database is called. -/
theorem persistOutputImpl_files {σ δ : Type} [AgentStorage σ] [StructuralDbStore δ] (clock : Clock) (agentId : AgentId)
    (storagePrefix body : String) (citations : List String) (files : σ) :
    ∃ after, ∀ db : δ, (persistOutputImpl codec clock agentId storagePrefix body citations files db).2.1 = after := by
  unfold persistOutputImpl
  obtain ⟨opening, opened⟩ := AgentFs.openWithStorage storagePrefix (.new "" ⟨0⟩ none) clock files
  cases opening with
  | error error => exact ⟨opened, fun _ => rfl⟩
  | ok fs =>
    simp only
    cases fs.persistOutput body citations opened with
    | error error => exact ⟨opened, fun _ => rfl⟩
    | ok written =>
      refine ⟨written, fun db => ?_⟩
      simp only
      split
      · rfl
      · split <;> rfl

/-- The files that a call leaves do not depend on the rows, nor does the answer unless it is of them. -/
theorem answerAgent_rows {σ : Type} [AgentStorage σ] (files : σ) (db other : StructuralDb) (call : AgentCall) :
    (answerAgent codec render graphId (files, db) call).2.1 = (answerAgent codec render graphId (files, other) call).2.1 ∧
      (call.filesOnly = true →
        (answerAgent codec render graphId (files, db) call).1 = (answerAgent codec render graphId (files, other) call).1) := by
  cases call with
  | perform event =>
    obtain ⟨agentId, activity, clock, writes, calls⟩ := event
    cases activity with
    | persistOutput body citations =>
      obtain ⟨after, same⟩ := @persistOutputImpl_files codec (Stopping σ) FaultyDb _ _ clock agentId
        (FsHandle.forAgent graphId agentId).storagePrefix body citations ⟨files, writes, []⟩
      refine ⟨congrArg Stopping.storage ((same ⟨db, calls⟩).trans (same ⟨other, calls⟩).symm), ?_⟩
      intro only
      cases only
    | registerChild childAgentName childTools childAgentId => exact ⟨rfl, fun only => by cases only⟩
    | _ => exact ⟨rfl, fun _ => rfl⟩
  | buildSeed agentId mandate triggers humanOps mandatePatches clock writes => exact ⟨rfl, fun _ => rfl⟩
  | readFs agentId op => exact ⟨rfl, fun _ => rfl⟩

/-- What some of the calls were answered. -/
def answersTo (chosen : AgentCall → Bool) (calls : List AgentCall) (answers : List ActivityAnswer) : List ActivityAnswer :=
  ((calls.zip answers).filter fun pair => chosen pair.1).map (·.2)

theorem agentCalls_total {σ : Type} [AgentStorage σ] (state : σ × StructuralDb) (calls : List AgentCall) :
    ∃ files rows answers, (agentCalls codec render graphId).run state calls = some ((files, rows), answers) := by
  induction calls generalizing state with
  | nil => exact ⟨state.1, state.2, [], rfl⟩
  | cons call calls ih =>
    obtain ⟨files, rows, answers, ran⟩ := ih (answerAgent codec render graphId state call).2
    exact ⟨files, rows, _, (agentCalls codec render graphId).run_cons.mpr
      ⟨_, _, answers, agentCalls_step codec render graphId rfl, ran, rfl⟩⟩

theorem answersTo_cons (chosen : AgentCall → Bool) (call : AgentCall) (calls : List AgentCall) (answer : ActivityAnswer)
    (answers : List ActivityAnswer) : answersTo chosen (call :: calls) (answer :: answers) =
      (if chosen call then [answer] else []) ++ answersTo chosen calls answers := by
  unfold answersTo
  rw [List.zip_cons_cons, List.filter_cons]
  split <;> rfl

/-- The agents of a group read no outputs but those of the group. -/
def Closed (group : AgentId → Bool) (calls : List AgentCall) : Prop :=
  ∀ call ∈ calls, group call.agentId = true → ∀ child ∈ call.children, group child = true

theorem groupAgrees_outside {agentId : AgentId} {before after : MemoryStorage} (outside : Outside graphId agentId before after)
    (other : group agentId = false) : GroupAgrees graphId group after before := by
  rintro key ⟨agent, rest, member, rfl⟩
  refine outside _ (agentRoot_apart ?_ rest)
  rintro rfl
  rw [member] at other
  cases other

/-- The agents of a group are answered as if they were alone. -/
theorem group_alone (render : Content → String) {first second : MemoryStorage} (agree : GroupAgrees graphId group first second)
    {calls : List AgentCall} (closed : Closed group calls) (db other : StructuralDb) :
    ∃ answers answers' files files' rows rows',
      (agentCalls codec render graphId).run (first, db) calls = some ((files, rows), answers) ∧
      (agentCalls codec render graphId).run (second, other) (calls.filter (group ·.agentId)) =
        some ((files', rows'), answers') ∧
      answersTo (fun call => group call.agentId && call.filesOnly) calls answers =
        answersTo AgentCall.filesOnly (calls.filter (group ·.agentId)) answers' ∧
      GroupAgrees graphId group files files' := by
  induction calls generalizing first second db other with
  | nil => exact ⟨[], [], first, second, db, other, rfl, rfl, rfl, agree⟩
  | cons call calls ih =>
    obtain ⟨own, later⟩ := List.forall_mem_cons.mp closed
    generalize answered : answerAgent codec render graphId (first, db) call = next
    obtain ⟨answer, files, rows⟩ := next
    cases member : group call.agentId with
    | false =>
      have dropped : (call :: calls).filter (group ·.agentId) = calls.filter (group ·.agentId) :=
        List.filter_cons_of_neg (by rw [member]; exact Bool.false_ne_true)
      have outside := @answerAgent_outside _ _ _ graphId codec render first db call
      rw [answered] at outside
      obtain ⟨answers, answers', last, last', ended, ended', ran, ran', same, agrees⟩ :=
        ih ((groupAgrees_outside outside member).trans agree) later rows other
      refine ⟨answer :: answers, answers', last, last', ended, ended', ?_, ?_, ?_, agrees⟩
      · exact (agentCalls codec render graphId).run_cons.mpr
          ⟨_, [answer], answers, agentCalls_step codec render graphId answered, ran, rfl⟩
      · rw [dropped]
        exact ran'
      · rw [dropped, answersTo_cons, member, ← same]
        rfl
    | true =>
      have kept : (call :: calls).filter (group ·.agentId) = call :: calls.filter (group ·.agentId) :=
        List.filter_cons_of_pos member
      have within : call.Within (GroupKey graphId group) (GroupKey graphId group) (GroupKey graphId group) graphId :=
        AgentCall.within_own (GroupKey.own member) (GroupKey.own member) (GroupKey.own member)
          fun child among => GroupKey.own (own member child among) _
      obtain ⟨_, _, files', rows', left, right, alike⟩ := @Lockstep.answer _ _ _ _ _ _ _ _ codec graphId
        (GroupAgrees.lockstep graphId group) render first second db call within agree
      rw [answered] at left
      cases left
      obtain ⟨same_files, same_answer⟩ := @answerAgent_rows graphId codec render _ _ second db other call
      generalize answered' : answerAgent codec render graphId (second, other) call = next at same_files same_answer
      obtain ⟨answer', files'', rows''⟩ := next
      rw [right] at same_files same_answer
      obtain rfl : files' = files'' := same_files
      obtain ⟨answers, answers', last, last', ended, ended', ran, ran', same, agrees⟩ := ih alike later rows rows''
      refine ⟨answer :: answers, answer' :: answers', last, last', ended, ended', ?_, ?_, ?_, agrees⟩
      · exact (agentCalls codec render graphId).run_cons.mpr
          ⟨_, [answer], answers, agentCalls_step codec render graphId answered, ran, rfl⟩
      · rw [kept]
        exact (agentCalls codec render graphId).run_cons.mpr
          ⟨_, [answer'], answers', agentCalls_step codec render graphId answered', ran', rfl⟩
      · rw [kept, answersTo_cons, answersTo_cons, same, member, Bool.true_and]
        cases only : call.filesOnly with
        | false => rfl
        | true => rw [show answer = answer' from same_answer only]

/-- On the disk too: no call of the other agents shows in what a group is answered, or stands in the way of
its files. -/
theorem disk_group_alone {notes : List Name → Prop} (notable : Notable notes) (pid : UInt32) (codec : Codec)
    (render : Content → String) (graphId : GraphId) {group : AgentId → Bool} {calls : List AgentCall} (tidy : ∀ call ∈ calls, call.Tidy notes)
    (closed : Closed group calls) (db other : StructuralDb) :
    ∃ answers answers' disk disk' rows rows',
      (agentCalls codec render graphId).run (emptyDisk pid, db) calls = some ((disk, rows), answers) ∧
      (agentCalls codec render graphId).run (emptyDisk pid, other) (calls.filter (group ·.agentId)) =
        some ((disk', rows'), answers') ∧
      answersTo (fun call => group call.agentId && call.filesOnly) calls answers =
        answersTo AgentCall.filesOnly (calls.filter (group ·.agentId)) answers' ∧
      ∀ agentId path, group agentId = true → Filed notes path →
        viewAt disk.store ((AgentFs.openForAgent graphId agentId).key (joinPath path)) =
          viewAt disk'.store ((AgentFs.openForAgent graphId agentId).key (joinPath path)) := by
  obtain ⟨answers, disk, memory, rows, ran, held, mirrored⟩ := disk_answers_as_memory notable pid codec render graphId db tidy
  obtain ⟨answers', disk', memory', rows', ran', held', mirrored'⟩ := disk_answers_as_memory notable pid codec render graphId other
    fun call among => tidy call (List.mem_filter.mp among).1
  obtain ⟨_, _, _, _, _, _, alone, alone', same, agrees⟩ := @group_alone graphId group codec render _ _ (.refl ⟨∅⟩) calls
    closed db other
  rw [held] at alone
  rw [held'] at alone'
  cases alone
  cases alone'
  refine ⟨answers, answers', disk, disk', rows, rows', ran, ran', same, ?_⟩
  intro agentId path member filed
  rw [mirrored agentId path filed, mirrored' agentId path filed]
  exact agrees _ (.own member _)

end Groups

section Examples

private def host : AgentId := ⟨⟨1⟩⟩

private def caller : AgentId := ⟨⟨2⟩⟩

private def noting (agentId : AgentId) (body : String) : AgentCall :=
  .perform ⟨agentId, .applyFsOps placeholderMandate [.writeFile "notes/STATUS.md" body], fun _ => ⟨0⟩, 9, 0⟩

private def standing : String := (AgentFs.openForAgent ⟨⟨0⟩⟩ host).key "notes/STATUS.md"

private def readout : Content → String
  | .text body => body
  | _ => ""

/-- Another agent's note does not take the place of one that is there. -/
theorem others_untouched_note : ∃ after rows answers,
    (agentCalls (listedCodec [] []) readout ⟨⟨0⟩⟩).run
      ((⟨(∅ : AList fun _ : String => Content).insert standing (.text "Home.")⟩ : MemoryStorage), ⟨[], [], [], [], ∅, []⟩)
      [noting caller "Away."] = some ((after, rows), answers) ∧ viewAt after standing = some (.text "Home.") := by
  obtain ⟨after, rows, answers, ran⟩ := @agentCalls_total ⟨⟨0⟩⟩ (listedCodec [] []) readout MemoryStorage _
    (⟨(∅ : AList fun _ : String => Content).insert standing (.text "Home.")⟩, ⟨[], [], [], [], ∅, []⟩) [noting caller "Away."]
  refine ⟨after, rows, answers, ran, ?_⟩
  rw [others_untouched ran]
  · have held : ∀ (storage : MemoryStorage) key, viewAt storage key = storage.inner.lookup key := fun _ _ => rfl
    rw [held, AList.lookup_insert]
  · rw [List.forall_mem_singleton]
    exact agentRoot_apart (by decide) _

private def stay : List AgentCall :=
  [noting caller "Away.", noting host "Home.", .readFs host (.read "notes/STATUS.md")]

private theorem stay_closed : Closed (· == host) stay := by
  unfold stay noting Closed
  simp [AgentCall.children]

private def plainNote (path : List Name) : Prop := path = [tailName] ∨ path = [statusName]

private theorem plainNote_notable : Notable plainNote where
  sidecar := .inl rfl
  status := .inr rfl
  apart first second noted noted' above := by
    rcases noted with rfl | rfl <;> rcases noted' with rfl | rfl <;>
      first | rfl | exact absurd (List.cons_prefix_cons.mp above).1 (by decide)
  beside first second noted noted' pid counter :=
    no_temporary (by rcases noted' with rfl | rfl <;> decide) (by rcases noted with rfl | rfl <;> simp)
  shown path noted := by
    rcases noted with rfl | rfl <;> decide

private theorem stay_tidy : ∀ call ∈ stay, call.Tidy plainNote := by
  have noted : ∀ agentId body, (noting agentId body).Tidy plainNote := by
    intro agentId body op member path named
    rw [List.mem_singleton.mp member, FsOp.path] at named
    rw [show notePath "notes/STATUS.md" = some [statusName] from by decide] at named
    exact .inr (Option.some.inj named).symm
  unfold stay
  rw [List.forall_mem_cons, List.forall_mem_cons, List.forall_mem_singleton]
  refine ⟨noted _ _, noted _ _, ?_⟩
  intro rest cleaned
  rw [show AgentFs.cleanRelpath "notes/STATUS.md" = .ok "notes/STATUS.md" from by decide] at cleaned
  rw [← Except.ok.inj cleaned, show keyPath "notes/STATUS.md" = [notesName, statusName] from by decide]
  exact .note (.inr rfl)

private def toHost : List ActivityAnswer :=
  [.rewritten (.ok (.success "notes updated")), .observed (some (.ok (.success "Home.")))]

private def noRows : StructuralDb := ⟨[], [], [], [], ∅, []⟩

private theorem host_alone : ((agentCalls (listedCodec [] []) readout ⟨⟨0⟩⟩).run ((⟨∅⟩ : MemoryStorage), noRows)
    (stay.filter (·.agentId == host))).map (·.2) = some toHost := by decide +kernel

/-- An agent reads its own note, whatever another wrote before it. -/
theorem group_alone_note : ∃ answers files rows,
    (agentCalls (listedCodec [] []) readout ⟨⟨0⟩⟩).run ((⟨∅⟩ : MemoryStorage), noRows) stay = some ((files, rows), answers) ∧
      answersTo (fun call => call.agentId == host && call.filesOnly) stay answers = toHost := by
  obtain ⟨answers, answers', files, _, rows, _, ran, alone, same, -⟩ := @group_alone ⟨⟨0⟩⟩ (· == host) (listedCodec [] [])
    readout ⟨∅⟩ ⟨∅⟩ (.refl _) stay stay_closed noRows noRows
  refine ⟨answers, files, rows, ran, ?_⟩
  have answered := host_alone
  rw [alone] at answered
  obtain rfl : answers' = toHost := Option.some.inj answered
  exact same

theorem disk_group_alone_note : ∃ answers disk rows,
    (agentCalls (listedCodec [] []) readout ⟨⟨0⟩⟩).run (emptyDisk 7, noRows) stay = some ((disk, rows), answers) ∧
      answersTo (fun call => call.agentId == host && call.filesOnly) stay answers = toHost := by
  obtain ⟨answers, answers', disk, _, rows, _, ran, alone, same, -⟩ := disk_group_alone plainNote_notable 7 (listedCodec [] [])
    readout ⟨⟨0⟩⟩ stay_tidy stay_closed noRows noRows
  refine ⟨answers, disk, rows, ran, ?_⟩
  obtain ⟨_, _, _, _, ran', held, -⟩ := disk_answers_as_memory plainNote_notable 7 (listedCodec [] []) readout ⟨⟨0⟩⟩ noRows
    fun call among => stay_tidy call (List.mem_filter.mp among).1
  have answered := host_alone
  rw [held] at answered
  rw [alone] at ran'
  cases ran'
  obtain rfl : answers' = toHost := Option.some.inj answered
  exact same

end Examples

end Coral.Proofs

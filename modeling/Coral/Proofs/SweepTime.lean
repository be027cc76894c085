import Coral.Proofs.RetireTrace
import Coral.Worker.Sweeps

/-! When a sweep reads the agents of a graph, by what the calls before that take: the listings,
the graphs that come before it, and the agents that come before. -/

namespace Coral.Worker.Proofs
open Coral.Library Coral.Temporal Coral.Temporal.Proofs

/-- One sweep's view of one graph, with no reads where it made the tracker forget the graph. -/
structure Reading where
  now : Duration
  reads : List SnapshotRead
deriving DecidableEq

namespace Reading

def sample (reading : Reading) : Sample := ⟨reading.now, reading.reads.map (·.observation)⟩

def firstRead (reading : Reading) : Nat := (reading.reads.head?.map (·.moment)).getD reading.now.nanos

def lastRead (reading : Reading) : Nat := (reading.reads.getLast?.map (·.moment)).getD reading.now.nanos

end Reading

/-- After the verdict to retire the tracker is gone. -/
def readingsOf (graphId : GraphId) : SweepLog → List Reading
  | .swept now live => if graphId ∈ live then [] else [⟨now, []⟩]
  | .visited visit =>
    if visit.graphId ≠ graphId then []
    else if visit.verdict = some .retire then [⟨visit.now, visit.reads⟩, ⟨visit.now, []⟩]
    else [⟨visit.now, visit.reads⟩]

def readings (graphId : GraphId) (log : List SweepLog) : List Reading := log.flatMap (readingsOf graphId)

theorem readings_append (graphId : GraphId) (log : List SweepLog) (more : List SweepLog) :
    readings graphId (log ++ more) = readings graphId log ++ readings graphId more := List.flatMap_append

section Agents

/-- What the calls about the agents take, up to the first agent that cannot be read. -/
def observing : List AgentVisit → Nat
  | [] => 0
  | agent :: agents => agent.describe.bounded.took +
    match agent.describe.bounded.answer with
    | some .closed => observing agents
    | some .running =>
      agent.query.bounded.took + if agent.query.bounded.answer.join.isSome then observing agents else 0
    | some .failed | none => 0

/-- What they take until the first agent that is not closed has been read. -/
def firstSnapshot : List AgentVisit → Nat
  | [] => 0
  | agent :: agents => agent.describe.bounded.took +
    if agent.describe.bounded.answer = some .closed then firstSnapshot agents else agent.query.bounded.took

/-- What they take until the last one has been read. Closed agents that come after it do not count. -/
def lastSnapshot : List AgentVisit → Nat
  | [] => 0
  | agent :: agents => agent.describe.bounded.took +
    if agent.describe.bounded.answer = some .closed then lastSnapshot agents
    else agent.query.bounded.took +
      if agents.all (·.describe.bounded.answer = some .closed) then 0 else lastSnapshot agents

theorem observeAgents_took {elapsed after : Nat} {agents : List AgentVisit} {outcome : Option (List SnapshotRead)}
    (observed : observeAgents elapsed agents = (outcome, after)) : after = elapsed + observing agents := by
  induction agents generalizing elapsed outcome after with
  | nil =>
    cases observed
    rfl
  | cons agent agents ih =>
    unfold observeAgents at observed
    simp only at observed
    split at observed
    · rename_i closed
      simp only [observing, closed]
      rw [ih observed, Nat.add_assoc]
    · rename_i running
      split at observed
      · rename_i unread
        cases observed
        simp only [observing, running, unread, Option.isSome_none, Bool.false_eq_true, if_false]
        omega
      · rename_i snapshot read
        simp only [observing, running, read, Option.isSome_some, if_true]
        split at observed
        · rename_i rest
          cases observed
          rw [ih rest]
          omega
        · rename_i rest
          cases observed
          rw [ih rest]
          omega
    · rename_i failed
      cases observed
      simp only [observing, failed, Nat.add_zero]
    · rename_i timed_out
      cases observed
      simp only [observing, timed_out, Nat.add_zero]

/-- Only closed agents leave nothing read. -/
theorem observeAgents_closed {elapsed after : Nat} {agents : List AgentVisit} {reads : List SnapshotRead}
    (observed : observeAgents elapsed agents = (some reads, after)) :
    agents.all (·.describe.bounded.answer = some .closed) = true ↔ reads = [] := by
  induction agents generalizing elapsed after reads with
  | nil =>
    cases observed
    simp
  | cons agent agents ih =>
    unfold observeAgents at observed
    simp only at observed
    split at observed
    · rename_i closed
      simpa [closed] using ih observed
    · rename_i running
      split at observed
      · cases observed
      · split at observed
        · cases observed
        · cases observed
          simp [running]
    · cases observed
    · cases observed

theorem observeAgents_moments {elapsed after : Nat} {agents : List AgentVisit} {reads : List SnapshotRead}
    (observed : observeAgents elapsed agents = (some reads, after)) :
    (∀ read, reads.head? = some read → read.moment = elapsed + firstSnapshot agents) ∧
      ∀ read, reads.getLast? = some read → read.moment = elapsed + lastSnapshot agents := by
  induction agents generalizing elapsed after reads with
  | nil =>
    cases observed
    exact ⟨nofun, nofun⟩
  | cons agent agents ih =>
    unfold observeAgents at observed
    unfold firstSnapshot lastSnapshot
    simp only at observed
    split at observed
    · rename_i closed
      obtain ⟨first, last⟩ := ih observed
      simp only [closed, if_true]
      exact ⟨fun read head => by rw [first read head, Nat.add_assoc], fun read end_ => by rw [last read end_, Nat.add_assoc]⟩
    · rename_i running
      have open_ : ¬ (agent.describe.bounded.answer = some .closed) := by
        rw [running]
        exact nofun
      rw [if_neg open_, if_neg open_]
      split at observed
      · cases observed
      · split at observed
        · cases observed
        · rename_i others final rest
          cases observed
          refine ⟨?_, ?_⟩
          · intro read head
            cases head
            dsimp only
            omega
          · intro read end_
            by_cases none_left : others = []
            · rw [if_pos ((observeAgents_closed rest).mpr none_left)]
              rw [none_left, List.getLast?_singleton] at end_
              cases end_
              dsimp only
              omega
            · rw [if_neg fun all => none_left ((observeAgents_closed rest).mp all)]
              rw [List.getLast?_cons_of_ne_nil none_left] at end_
              rw [(ih rest).2 read end_]
              omega
    · cases observed
    · cases observed

end Agents

section Calls

/-- What a call takes: nothing for a graph that is retired, and the signals only of one that
the reaper retires now. -/
def spends (config : ReaperConfig) (loop : ReaperLoop) : SweepCall → Nat
  | .sweep slept listGraphs => slept + listGraphs.took
  | .graph listAgents retireGraph =>
    match loop.pending with
    | [] => 0
    | graphId :: _ =>
      if graphId ∈ loop.retired then 0
      else listAgents.took + (listAgents.answer.map observing).getD 0 +
        if (loop.step config (.graph listAgents retireGraph)).any fun (_, log) =>
            log.any fun | .visited visit => visit.verdict = some .retire | _ => false
          then retireGraph.took else 0

/-- What calls take, one after the other. -/
def spent (config : ReaperConfig) : ReaperLoop → List SweepCall → Nat
  | _, [] => 0
  | loop, call :: calls => spends config loop call +
    match loop.step config call with
    | some (next, _) => spent config next calls
    | none => 0

/-- What the later calls take once the earlier ones have been made. -/
def spentAfter (config : ReaperConfig) (earlier later : List SweepCall) : Nat :=
  match (sweeping config).run .start earlier with
  | some (loop, _) => spent config loop later
  | none => 0

variable {config : ReaperConfig} {loop next : ReaperLoop} {log : List SweepLog}

theorem sweep_ok {slept : Nat} {listGraphs : Timed (Option (List GraphId))}
    (stepped : loop.step config (.sweep slept listGraphs) = some (next, log)) :
    config.interval.nanos ≤ slept ∧ next.now.nanos = loop.elapsed + slept ∧
      next.elapsed = loop.elapsed + slept + listGraphs.took := by
  change loop.sweep config slept listGraphs = _ at stepped
  unfold ReaperLoop.sweep at stepped
  split at stepped
  · cases stepped
  · rename_i free
    have slept_enough : config.interval.nanos ≤ slept := by
      by_contra short
      exact free (.inr (not_le.mp short))
    simp only at stepped
    split at stepped <;> cases stepped <;> exact ⟨slept_enough, rfl, rfl⟩

/-- What a visit of a graph comes to. -/
inductive Visited (config : ReaperConfig) (loop : ReaperLoop) (graphId : GraphId)
    (listAgents : Timed (Option (List AgentVisit))) (retireGraph : Timed Bool) : ReaperLoop × List SweepLog → Prop
  | passed (retired : graphId ∈ loop.retired) : Visited config loop graphId listAgents retireGraph (loop, [])
  | unlisted (watched : graphId ∉ loop.retired) (failed : listAgents.answer = none) :
    Visited config loop graphId listAgents retireGraph
      ({ loop.track graphId none with elapsed := loop.elapsed + listAgents.took },
        [.visited ⟨graphId, loop.now, [], none⟩])
  | unread {agents : List AgentVisit} {after : Nat} (watched : graphId ∉ loop.retired)
    (listed : listAgents.answer = some agents)
    (observed : observeGraph (loop.elapsed + listAgents.took) agents = (none, after)) :
    Visited config loop graphId listAgents retireGraph
      ({ loop.track graphId none with elapsed := after }, [.visited ⟨graphId, loop.now, [], none⟩])
  | waits {agents : List AgentVisit} {reads : List SnapshotRead} {after : Nat} {tracker : GraphQuiescence}
    (watched : graphId ∉ loop.retired) (listed : listAgents.answer = some agents)
    (observed : observeGraph (loop.elapsed + listAgents.took) agents = (some reads, after))
    (judged : ((loop.trackers graphId).getD (.new config.waveMargin)).observe loop.now (reads.map (·.observation)) =
      (.wait, tracker)) :
    Visited config loop graphId listAgents retireGraph
      ({ loop.track graphId (some tracker) with elapsed := after }, [.visited ⟨graphId, loop.now, reads, some .wait⟩])
  | retires {agents : List AgentVisit} {reads : List SnapshotRead} {after : Nat} {tracker : GraphQuiescence}
    (watched : graphId ∉ loop.retired) (listed : listAgents.answer = some agents)
    (observed : observeGraph (loop.elapsed + listAgents.took) agents = (some reads, after))
    (judged : ((loop.trackers graphId).getD (.new config.waveMargin)).observe loop.now (reads.map (·.observation)) =
      (.retire, tracker)) :
    Visited config loop graphId listAgents retireGraph
      ({ loop.track graphId none with
          elapsed := after + retireGraph.took
          retired := if retireGraph.answer then graphId :: loop.retired else loop.retired },
        [.visited ⟨graphId, loop.now, reads, some .retire⟩])

theorem visit_cases (config : ReaperConfig) (loop : ReaperLoop) (graphId : GraphId)
    (listAgents : Timed (Option (List AgentVisit))) (retireGraph : Timed Bool) :
    Visited config loop graphId listAgents retireGraph (loop.visit config graphId listAgents retireGraph) := by
  unfold ReaperLoop.visit
  split
  · exact .passed ‹_›
  · rename_i watched
    simp only
    split
    · exact .unlisted watched ‹_›
    · rename_i agents listed
      split
      · exact .unread watched listed ‹_›
      · rename_i reads after observed
        split
        · exact .waits watched listed observed ‹_›
        · exact .retires watched listed observed ‹_›

theorem observeGraph_took {elapsed after : Nat} {agents : List AgentVisit} {outcome : Option (List SnapshotRead)}
    (observed : observeGraph elapsed agents = (outcome, after)) : after = elapsed + observing agents := by
  unfold observeGraph at observed
  split at observed
  · rename_i none_live
    cases observed
    exact observeAgents_took none_live
  · exact observeAgents_took observed

theorem graph_ok {listAgents : Timed (Option (List AgentVisit))} {retireGraph : Timed Bool}
    (stepped : loop.step config (.graph listAgents retireGraph) = some (next, log)) :
    ∃ graphId pending, loop.pending = graphId :: pending ∧
      Visited config { loop with pending } graphId listAgents retireGraph (next, log) := by
  unfold ReaperLoop.step at stepped
  simp only at stepped
  split at stepped
  · cases stepped
  · rename_i graphId pending waiting
    refine ⟨graphId, pending, waiting, ?_⟩
    rw [← Option.some.inj stepped]
    exact visit_cases config { loop with pending } graphId listAgents retireGraph

/-- A visit goes on in the sweep that it is made in. -/
theorem graph_now {listAgents : Timed (Option (List AgentVisit))} {retireGraph : Timed Bool}
    (stepped : loop.step config (.graph listAgents retireGraph) = some (next, log)) : next.now = loop.now := by
  obtain ⟨graphId, pending, -, visited⟩ := graph_ok stepped
  cases visited <;> rfl

/-- A listing reads no graph. -/
theorem sweep_unread {slept : Nat} {listGraphs : Timed (Option (List GraphId))} {graphId : GraphId} {reading : Reading}
    (stepped : loop.step config (.sweep slept listGraphs) = some (next, log)) (member : reading ∈ readings graphId log) :
    reading.reads = [] := by
  change loop.sweep config slept listGraphs = _ at stepped
  unfold ReaperLoop.sweep at stepped
  split at stepped
  · cases stepped
  · simp only at stepped
    split at stepped
    · cases stepped
      cases member
    · cases stepped
      simp only [readings, readingsOf, List.flatMap_cons, List.flatMap_nil, List.append_nil] at member
      split at member
      · cases member
      · rw [List.mem_singleton.mp member]

/-- A visit reads its own graph, as its agents answer. -/
theorem Visited.read {graphId other : GraphId} {listAgents : Timed (Option (List AgentVisit))} {retireGraph : Timed Bool}
    {reading : Reading} (visited : Visited config loop graphId listAgents retireGraph (next, log))
    (member : reading ∈ readings other log) (seen : reading.reads ≠ []) :
    other = graphId ∧ reading.now = loop.now ∧ ∃ agents after, listAgents.answer = some agents ∧
      observeGraph (loop.elapsed + listAgents.took) agents = (some reading.reads, after) := by
  have own : ∀ visit, log = [.visited visit] → visit.graphId = graphId →
      other = graphId ∧ reading = ⟨visit.now, visit.reads⟩ := by
    rintro visit rfl here
    simp only [readings, readingsOf, List.flatMap_cons, List.flatMap_nil, List.append_nil] at member
    split at member
    · cases member
    · rename_i same
      refine ⟨(not_not.mp same).symm.trans here, ?_⟩
      split at member
      · rcases List.mem_cons.mp member with first | last
        · exact first
        · rw [List.mem_singleton.mp last] at seen
          exact (seen rfl).elim
      · exact List.mem_singleton.mp member
  cases visited with
  | passed retired => cases member
  | unlisted watched failed =>
    obtain ⟨-, rfl⟩ := own _ rfl rfl
    exact (seen rfl).elim
  | unread watched listed observed =>
    obtain ⟨-, rfl⟩ := own _ rfl rfl
    exact (seen rfl).elim
  | waits watched listed observed judged =>
    obtain ⟨same, rfl⟩ := own _ rfl rfl
    exact ⟨same, rfl, _, _, listed, observed⟩
  | retires watched listed observed judged =>
    obtain ⟨same, rfl⟩ := own _ rfl rfl
    exact ⟨same, rfl, _, _, listed, observed⟩

/-- The clock goes on by what a call takes. -/
theorem step_elapsed {call : SweepCall} (stepped : loop.step config call = some (next, log)) :
    next.elapsed = loop.elapsed + spends config loop call := by
  cases call with
  | sweep slept listGraphs => rw [(sweep_ok stepped).2.2, Nat.add_assoc]; rfl
  | graph listAgents retireGraph =>
    obtain ⟨graphId, pending, waiting, visited⟩ := graph_ok stepped
    unfold spends
    simp only [waiting, stepped]
    cases visited with
    | passed retired =>
      rw [if_pos retired]
      rfl
    | unlisted watched failed =>
      rw [if_neg watched]
      simp [failed]
    | unread watched listed observed =>
      rw [if_neg watched]
      simp [listed, observeGraph_took observed, Nat.add_assoc]
    | waits watched listed observed judged =>
      rw [if_neg watched]
      simp [listed, observeGraph_took observed, Nat.add_assoc]
    | retires watched listed observed judged =>
      rw [if_neg watched]
      simp [listed, observeGraph_took observed, Nat.add_assoc]

theorem run_elapsed {calls : List SweepCall} (ran : (sweeping config).run loop calls = some (next, log)) :
    next.elapsed = loop.elapsed + spent config loop calls := by
  induction calls generalizing loop log with
  | nil =>
    obtain ⟨rfl, -⟩ : loop = next ∧ [] = log := by simpa using ran
    rfl
  | cons call calls ih =>
    obtain ⟨middle, first, rest, stepped, continued, rfl⟩ := (sweeping config).run_cons.mp ran
    change loop.step config call = _ at stepped
    unfold spent
    simp only [stepped]
    rw [ih continued, step_elapsed stepped, Nat.add_assoc]

end Calls

/-- A visit that reads a graph, with all the calls before it: those before its sweep, the listing
that opens the sweep, and the visits of the graphs that come first. -/
structure Occasion where
  past : List SweepCall
  slept : Nat
  listGraphs : Timed (Option (List GraphId))
  before : List SweepCall
  agents : List AgentVisit
  listed : Nat
  retireGraph : Timed Bool

namespace Occasion

def opening (occasion : Occasion) : List SweepCall := occasion.past ++ [.sweep occasion.slept occasion.listGraphs]

def calls (occasion : Occasion) : List SweepCall :=
  occasion.opening ++ occasion.before ++ [.graph ⟨some occasion.agents, occasion.listed⟩ occasion.retireGraph]

/-- When its sweep starts: after all that was called before, and the sleep. -/
def begins (config : ReaperConfig) (occasion : Occasion) : Nat := spent config .start occasion.past + occasion.slept

/-- What the sweep takes before it comes to the agents. -/
def waits (config : ReaperConfig) (occasion : Occasion) : Nat :=
  occasion.listGraphs.took + spentAfter config occasion.opening occasion.before + occasion.listed

/-- From the start of the sweep to the first snapshot of the graph, and to the last. -/
def untilFirst (config : ReaperConfig) (occasion : Occasion) : Nat := occasion.waits config + firstSnapshot occasion.agents

def untilLast (config : ReaperConfig) (occasion : Occasion) : Nat := occasion.waits config + lastSnapshot occasion.agents

/-- Its sweep begins, and it comes to the graph, in these states, and reads it like this. -/
structure Reads (config : ReaperConfig) (graphId : GraphId) (occasion : Occasion) (reading : Reading)
    (begun loop : ReaperLoop) : Prop where
  opened : ∃ log, (sweeping config).run .start occasion.opening = some (begun, log)
  came : ∃ log, (sweeping config).run begun occasion.before = some (loop, log)
  visits : ∀ call ∈ occasion.before, ∃ listAgents retireGraph, call = .graph listAgents retireGraph
  next : loop.pending.head? = some graphId
  dated : reading.now = begun.now
  observed : ∃ after, observeGraph (loop.elapsed + occasion.listed) occasion.agents = (some reading.reads, after)

variable {config : ReaperConfig} {graphId : GraphId} {occasion : Occasion} {reading : Reading} {begun loop : ReaperLoop}

theorem Reads.begins (reads : occasion.Reads config graphId reading begun loop) :
    reading.now.nanos = occasion.begins config ∧
      loop.elapsed + occasion.listed = occasion.begins config + occasion.waits config := by
  obtain ⟨log, opened⟩ := reads.opened
  obtain ⟨log', came⟩ := reads.came
  have whole := opened
  unfold Occasion.opening at whole
  obtain ⟨idle, first, rest, ran, stepped, -⟩ := (sweeping config).run_snoc.mp whole
  obtain ⟨-, now, elapsed⟩ := sweep_ok stepped
  have past := run_elapsed ran
  have start : ReaperLoop.start.elapsed = 0 := rfl
  have visits := run_elapsed came
  have later : spentAfter config occasion.opening occasion.before = spent config begun occasion.before := by
    unfold spentAfter
    rw [opened]
  rw [reads.dated]
  unfold Occasion.waits Occasion.begins
  rw [later]
  omega

/-- The moments of the reading are those that the calls account for. -/
theorem Reads.moments (reads : occasion.Reads config graphId reading begun loop) :
    reading.firstRead = occasion.begins config + occasion.untilFirst config ∧
      reading.lastRead = occasion.begins config + occasion.untilLast config := by
  obtain ⟨-, until_⟩ := reads.begins
  obtain ⟨after, observed⟩ := reads.observed
  have all : observeAgents (loop.elapsed + occasion.listed) occasion.agents = (some reading.reads, after) ∧
      reading.reads ≠ [] := by
    unfold observeGraph at observed
    split at observed
    · cases observed
    · rename_i other
      refine ⟨observed, ?_⟩
      intro empty
      rw [empty] at observed
      exact other _ observed
  obtain ⟨first, last⟩ := observeAgents_moments all.1
  unfold Reading.firstRead Reading.lastRead untilFirst untilLast
  rw [List.head?_eq_some_head all.2, List.getLast?_eq_some_getLast all.2]
  rw [Option.map_some, Option.map_some, Option.getD_some, Option.getD_some]
  rw [first _ (List.head?_eq_some_head all.2), last _ (List.getLast?_eq_some_getLast all.2)]
  omega

/-- Made at this point of the calls, the visit gives that reading of the graph. -/
def Yields (config : ReaperConfig) (graphId : GraphId) (occasion : Occasion) (reading : Reading) : Prop :=
  ∃ begun loop, occasion.Reads config graphId reading begun loop

end Occasion

section Sites

variable {config : ReaperConfig}

/-- Every reading has its occasion among the calls, and the sweep that goes on its opening. -/
structure Sited (config : ReaperConfig) (history : List SweepCall) (loop : ReaperLoop) (log : List SweepLog) : Prop where
  current : loop.pending ≠ [] → ∃ past slept listGraphs before begun opened more,
    history = past ++ [.sweep slept listGraphs] ++ before ∧
      (sweeping config).run .start (past ++ [.sweep slept listGraphs]) = some (begun, opened) ∧
      (sweeping config).run begun before = some (loop, more) ∧ loop.now = begun.now ∧
      ∀ call ∈ before, ∃ listAgents retireGraph, call = SweepCall.graph listAgents retireGraph
  read : ∀ graphId, ∀ reading ∈ readings graphId log, reading.reads ≠ [] →
    ∃ occasion : Occasion, occasion.Yields config graphId reading ∧ occasion.calls <+: history

theorem Sited.step {history : List SweepCall} {loop next : ReaperLoop} {log more : List SweepLog} {call : SweepCall}
    (ran : (sweeping config).run .start history = some (loop, log)) (sited : Sited config history loop log)
    (stepped : (sweeping config).step loop call = some (next, more)) :
    Sited config (history ++ [call]) next (log ++ more) := by
  have reads : (∀ graphId, ∀ reading ∈ readings graphId more, reading.reads ≠ [] → ∃ occasion : Occasion,
        occasion.Yields config graphId reading ∧ occasion.calls <+: history ++ [call]) →
      ∀ graphId, ∀ reading ∈ readings graphId (log ++ more), reading.reads ≠ [] → ∃ occasion : Occasion,
        occasion.Yields config graphId reading ∧ occasion.calls <+: history ++ [call] := by
    intro fresh graphId reading member seen
    rw [readings_append] at member
    rcases List.mem_append.mp member with old | new
    · obtain ⟨occasion, yields, among⟩ := sited.read graphId reading old seen
      exact ⟨occasion, yields, among.trans (List.prefix_append _ _)⟩
    · exact fresh graphId reading new seen
  cases call with
  | sweep slept listGraphs =>
    refine ⟨fun _ => ?_, reads fun graphId reading new seen => (seen (sweep_unread stepped new)).elim⟩
    refine ⟨history, slept, listGraphs, [], next, log ++ more, [], (List.append_nil _).symm, ?_, rfl, rfl, nofun⟩
    exact (sweeping config).run_snoc.mpr ⟨loop, log, more, ran, stepped, rfl⟩
  | graph listAgents retireGraph =>
    obtain ⟨graphId, pending, waiting, visited⟩ := graph_ok stepped
    obtain ⟨past, slept, listGraphs, before, begun, opened, came, whole, opening, ran', now, visits⟩ :=
      sited.current (by rw [waiting]; exact List.cons_ne_nil _ _)
    refine ⟨fun _ => ?_, reads ?_⟩
    · refine ⟨past, slept, listGraphs, before ++ [.graph listAgents retireGraph], begun, opened, came ++ more, ?_, opening,
        (sweeping config).run_snoc.mpr ⟨loop, came, more, ran', stepped, rfl⟩, (graph_now stepped).trans now, ?_⟩
      · rw [whole, List.append_assoc]
      · intro call member
        rcases List.mem_append.mp member with old | new
        · exact visits call old
        · exact ⟨listAgents, retireGraph, List.mem_singleton.mp new⟩
    · intro other reading new seen
      obtain ⟨rfl, dated, agents, after, listed, observed⟩ := visited.read new seen
      refine ⟨⟨past, slept, listGraphs, before, agents, listAgents.took, retireGraph⟩,
        ⟨begun, loop, ⟨_, opening⟩, ⟨_, ran'⟩, visits, by rw [waiting]; rfl, dated.trans now, after, observed⟩, ?_⟩
      obtain ⟨answer, took⟩ := listAgents
      dsimp only at listed
      subst listed
      unfold Occasion.calls Occasion.opening
      rw [whole]

theorem sweeping_sited {calls : List SweepCall} {final : ReaperLoop} {log : List SweepLog}
    (ran : (sweeping config).run .start calls = some (final, log)) : Sited config calls final log := by
  have both : (sweeping config).run .start calls = some (final, log) ∧ Sited config calls final log := by
    apply (sweeping config).history_invariant (fun history loop log =>
      (sweeping config).run .start history = some (loop, log) ∧ Sited config history loop log) _ _ ran
    · exact ⟨rfl, fun waiting => (waiting rfl).elim, fun _ _ member => by cases member⟩
    · intro history loop log call next more held stepped
      exact ⟨(sweeping config).run_snoc.mpr ⟨loop, log, more, held.1, stepped, rfl⟩, held.2.step held.1 stepped⟩
  exact both.2

end Sites

end Coral.Worker.Proofs

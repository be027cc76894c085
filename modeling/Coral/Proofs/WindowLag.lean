import Coral.Proofs.SweepTime

/-! How long a graph was seen quiet for before it is retired. The window is measured between the
starts of two sweeps, and the snapshots of the graph are read some time into each. -/

namespace Coral.Worker.Proofs
open Coral.Library Coral.Temporal Coral.Temporal.Proofs

namespace Reading

/-- No snapshot was read before the sweep started. -/
def Timely (reading : Reading) : Prop := ∀ read ∈ reading.reads, reading.now.nanos ≤ read.moment

theorem Timely.firstRead {reading : Reading} (timely : reading.Timely) : reading.now.nanos ≤ reading.firstRead := by
  unfold Reading.firstRead
  cases first : reading.reads.head? with
  | none => exact Nat.le_refl _
  | some read => exact timely read (List.mem_of_head? first)

theorem Timely.lastRead {reading : Reading} (timely : reading.Timely) : reading.now.nanos ≤ reading.lastRead := by
  unfold Reading.lastRead
  cases last : reading.reads.getLast? with
  | none => exact Nat.le_refl _
  | some read => exact timely read (List.mem_of_getLast? last)

end Reading

abbrev StableRun : List Reading → List Reading → Prop :=
  LastRun (fun reading => reading.sample.Quiet) (fun reading => reading.sample.rows)

def visited (visit : GraphVisit) : Reading := ⟨visit.now, visit.reads⟩

/-- The graph's stable window that ends with the visit starts with that reading. -/
def OpensWindow (earlier : List SweepLog) (visit : GraphVisit) (first : Reading) : Prop :=
  ∃ rest, StableRun (readings visit.graphId earlier ++ [visited visit]) (first :: rest ++ [visited visit])

/-- The margin lies between the last read of the one sweep and the first of the other. -/
def Honoured (waveMargin : Duration) (first last : Reading) : Prop :=
  first.lastRead + waveMargin.nanos ≤ last.firstRead

section Tracker

variable {waveMargin : Duration} {history : List Reading} {tracker : Option GraphQuiescence}

/-- The tracker, or the new one that takes its place, is in the run the history ends with. -/
def Followed (waveMargin : Duration) (history : List Reading) (tracker : Option GraphQuiescence) : Prop :=
  ∃ run, HeldRun (history.map Reading.sample) run ∧ Tracks waveMargin run (tracker.getD (.new waveMargin))

theorem followed_nil : Followed waveMargin [] none := ⟨[], LastRun.nil, rfl, rfl, rfl⟩

theorem followed_forgotten (now : Duration) : Followed waveMargin (history ++ [⟨now, []⟩]) none := by
  refine ⟨[], ?_, rfl, rfl, rfl⟩
  rw [List.map_append]
  exact LastRun.broken fun quiet => quiet.1 rfl

theorem Followed.observe (followed : Followed waveMargin history tracker) (reading : Reading) :
    Followed waveMargin (history ++ [reading])
      (some ((tracker.getD (.new waveMargin)).observe reading.now (reading.reads.map (·.observation))).2) := by
  obtain ⟨run, held, tracks⟩ := followed
  obtain ⟨later, next, kept, -⟩ := tracks.observe held reading.sample
  refine ⟨later, ?_, kept⟩
  rw [List.map_append]
  exact next

/-- The verdict to retire ends a stable run, whose first reading is as old as the margin asks. -/
theorem Followed.retires (followed : Followed waveMargin history tracker) {reading : Reading}
    (retires : ((tracker.getD (.new waveMargin)).observe reading.now (reading.reads.map (·.observation))).1 = .retire) :
    ∃ first rest, StableRun (history ++ [reading]) (first :: rest ++ [reading]) ∧
      waveMargin.nanos ≤ reading.now.nanos - first.now.nanos := by
  obtain ⟨run, held, tracks⟩ := followed
  obtain ⟨later, next, -, verdict⟩ := tracks.observe held reading.sample
  obtain ⟨first, rest, whole, enough⟩ := verdict.mp retires
  have mapped : HeldRun ((history ++ [reading]).map Reading.sample) later := by
    rw [List.map_append]
    exact next
  obtain ⟨stable, last, same⟩ := mapped.comap
  rw [whole] at same
  obtain ⟨front, back, rfl, fronts, backs⟩ := List.map_eq_append_iff.mp same
  obtain ⟨opening, more, rfl, rfl, rfl⟩ := List.map_eq_cons_iff.mp fronts
  obtain ⟨ending, none, rfl, -, empty⟩ := List.map_eq_cons_iff.mp backs
  obtain rfl := List.map_eq_nil_iff.mp empty
  obtain ⟨before, parts⟩ := last.suffix
  rw [← List.append_assoc] at parts
  obtain rfl : ending = reading := (List.cons.inj (List.append_inj' parts rfl).2).1
  exact ⟨opening, more, last, enough⟩

end Tracker

section Reads

/-- The snapshots are read while the graph is observed. -/
theorem observeAgents_timely {elapsed after : Nat} {agents : List AgentVisit} {reads : List SnapshotRead}
    (observed : observeAgents elapsed agents = (some reads, after)) :
    elapsed ≤ after ∧ ∀ read ∈ reads, elapsed ≤ read.moment ∧ read.moment ≤ after := by
  induction agents generalizing elapsed reads after with
  | nil =>
    cases observed
    exact ⟨Nat.le_refl _, nofun⟩
  | cons agent agents ih =>
    unfold observeAgents at observed
    simp only at observed
    split at observed
    · obtain ⟨later, moments⟩ := ih observed
      exact ⟨by omega, fun read member => by have := moments read member; omega⟩
    · split at observed
      · cases observed
      · split at observed
        · cases observed
        · rename_i others final rest
          cases observed
          obtain ⟨later, moments⟩ := ih rest
          refine ⟨by omega, ?_⟩
          intro read member
          rcases List.mem_cons.mp member with rfl | other
          · dsimp only
            omega
          · have := moments read other
            omega
    · cases observed
    · cases observed

theorem observeGraph_timely {elapsed after : Nat} {agents : List AgentVisit} {reads : List SnapshotRead}
    (observed : observeGraph elapsed agents = (some reads, after)) :
    elapsed ≤ after ∧ reads ≠ [] ∧ ∀ read ∈ reads, elapsed ≤ read.moment ∧ read.moment ≤ after := by
  unfold observeGraph at observed
  split at observed
  · cases observed
  · rename_i other
    obtain ⟨later, moments⟩ := observeAgents_timely observed
    refine ⟨later, ?_, moments⟩
    rintro rfl
    exact other _ observed

end Reads

section Run

variable {config : ReaperConfig}

/-- What is known of a verdict to retire, from the log before it. -/
structure Fired (config : ReaperConfig) (earlier : List SweepLog) (visit : GraphVisit) (first : Reading) : Prop where
  opens : OpensWindow earlier visit first
  among : first ∈ readings visit.graphId earlier
  apart : config.waveMargin.nanos ≤ visit.now.nanos - first.now.nanos
  ordered : first.now.nanos ≤ visit.now.nanos
  after : first.lastRead ≤ (visited visit).firstRead
  spaced : first.now.nanos = visit.now.nanos ∨ first.lastRead + config.interval.nanos ≤ visit.now.nanos
  early : first.Timely
  late : (visited visit).Timely

/-- A reading of the sweep that goes on, or of one that ended before the reaper last slept. -/
structure Dated (config : ReaperConfig) (loop : ReaperLoop) (reading : Reading) : Prop where
  timely : reading.Timely
  ordered : reading.now.nanos ≤ loop.now.nanos
  read : reading.lastRead ≤ loop.elapsed
  spaced : reading.now.nanos = loop.now.nanos ∨ reading.lastRead + config.interval.nanos ≤ loop.now.nanos

/-- The clock after the sweep's start goes on, or a new sweep starts after a sleep. -/
structure Onward (config : ReaperConfig) (loop next : ReaperLoop) : Prop where
  elapsed : loop.elapsed ≤ next.elapsed
  now : next.now = loop.now ∨ loop.elapsed + config.interval.nanos ≤ next.now.nanos

theorem Dated.onward {loop next : ReaperLoop} {reading : Reading} (dated : Dated config loop reading)
    (started : loop.now.nanos ≤ loop.elapsed) (onward : Onward config loop next) : Dated config next reading := by
  obtain ⟨timely, ordered, read, spaced⟩ := dated
  obtain ⟨elapsed, same | slept⟩ := onward
  · exact ⟨timely, by rw [same]; exact ordered, by omega, by rw [same]; exact spaced⟩
  · exact ⟨timely, by omega, by omega, .inr (by omega)⟩

/-- Nothing is read where the tracker forgets the graph. -/
theorem dated_forgotten {loop : ReaperLoop} (started : loop.now.nanos ≤ loop.elapsed) : Dated config loop ⟨loop.now, []⟩ :=
  ⟨(by intro read member; cases member), Nat.le_refl _, started, .inl rfl⟩

structure Logged (config : ReaperConfig) (loop : ReaperLoop) (log : List SweepLog) : Prop where
  started : loop.now.nanos ≤ loop.elapsed
  followed : ∀ graphId, Followed config.waveMargin (readings graphId log) (loop.trackers graphId)
  dated : ∀ graphId, ∀ reading ∈ readings graphId log, Dated config loop reading
  fired : ∀ earlier visit later, log = earlier ++ .visited visit :: later → visit.verdict = some .retire →
    ∃ first, Fired config earlier visit first

theorem readings_snoc (graphId : GraphId) (log : List SweepLog) (item : SweepLog) :
    readings graphId (log ++ [item]) = readings graphId log ++ readingsOf graphId item := by
  simp [readings]

/-- One more item in the log. -/
theorem Logged.log {loop next : ReaperLoop} {log : List SweepLog} {item : SweepLog} (logged : Logged config loop log)
    (started : next.now.nanos ≤ next.elapsed) (onward : Onward config loop next)
    (followed : ∀ graphId, Followed config.waveMargin (readings graphId log ++ readingsOf graphId item)
      (next.trackers graphId))
    (dated : ∀ graphId, ∀ reading ∈ readingsOf graphId item, Dated config next reading)
    (fired : ∀ visit, item = .visited visit → visit.verdict = some .retire →
      ∃ first, Fired config log visit first) : Logged config next (log ++ [item]) := by
  refine ⟨started, ?_, ?_, ?_⟩
  · intro graphId
    rw [readings_snoc]
    exact followed graphId
  · intro graphId reading member
    rw [readings_snoc] at member
    rcases List.mem_append.mp member with earlier | new
    · exact (logged.dated graphId reading earlier).onward logged.started onward
    · exact dated graphId reading new
  · intro earlier visit later whole retires
    rcases List.eq_nil_or_concat' later with rfl | ⟨more, last, rfl⟩
    · obtain ⟨rfl, same⟩ := List.append_inj' whole rfl
      exact fired visit (List.cons.inj same).1 retires
    · rw [← List.cons_append, ← List.append_assoc] at whole
      exact logged.fired earlier visit more (List.append_inj' whole rfl).1 retires

theorem Logged.quietly {loop next : ReaperLoop} {log : List SweepLog} (logged : Logged config loop log)
    (started : next.now.nanos ≤ next.elapsed) (onward : Onward config loop next)
    (same : next.trackers = loop.trackers) : Logged config next log := by
  refine ⟨started, ?_, ?_, logged.fired⟩
  · intro graphId
    rw [same]
    exact logged.followed graphId
  · exact fun graphId reading member => (logged.dated graphId reading member).onward logged.started onward

theorem Logged.sweep {loop next : ReaperLoop} {log more : List SweepLog} {slept : Nat}
    {listGraphs : Timed (Option (List GraphId))} (logged : Logged config loop log)
    (swept : loop.sweep config slept listGraphs = some (next, more)) : Logged config next (log ++ more) := by
  have before := logged.started
  obtain ⟨enough, now, elapsed⟩ := @sweep_ok config loop next more slept listGraphs swept
  have started : next.now.nanos ≤ next.elapsed := by omega
  have onward : Onward config loop next := ⟨by omega, .inr (by omega)⟩
  unfold ReaperLoop.sweep at swept
  split at swept
  · cases swept
  · simp only at swept
    split at swept
    · cases swept
      rw [List.append_nil]
      exact logged.quietly started onward rfl
    · rename_i live listed
      cases swept
      refine logged.log started onward ?_ ?_ nofun
      · intro graphId
        dsimp only [readingsOf]
        split
        · rw [List.append_nil]
          exact logged.followed graphId
        · exact followed_forgotten _
      · intro graphId reading member
        dsimp only [readingsOf] at member
        split at member
        · cases member
        · rw [List.mem_singleton.mp member]
          exact dated_forgotten started

/-- A visit that leaves a graph without a tracker, and with nothing read of it. -/
theorem Logged.forget {loop : ReaperLoop} {log : List SweepLog} (logged : Logged config loop log) (graphId : GraphId)
    {elapsed : Nat} (later : loop.elapsed ≤ elapsed) :
    Logged config { loop.track graphId none with elapsed } (log ++ [.visited ⟨graphId, loop.now, [], none⟩]) := by
  have started := logged.started.trans later
  refine logged.log started ⟨later, .inl rfl⟩ ?_ ?_ ?_
  · intro other
    dsimp only [readingsOf, ReaperLoop.track]
    by_cases here : other = graphId
    · rw [if_pos here, if_neg (not_not.mpr here.symm)]
      exact followed_forgotten loop.now
    · rw [if_neg here, if_pos (Ne.symm here), List.append_nil]
      exact logged.followed other
  · intro other reading member
    dsimp only [readingsOf] at member
    split at member
    · cases member
    · rw [List.mem_singleton.mp member]
      exact dated_forgotten started
  · intro visit same retires
    cases same
    cases retires

/-- A visit that reads the graph; what is done about the verdict comes after. -/
theorem Logged.observed {loop next : ReaperLoop} {log : List SweepLog} (logged : Logged config loop log)
    {visit : GraphVisit} (clock : next.now = loop.now) (later : loop.elapsed ≤ next.elapsed) (now : visit.now = loop.now)
    (some_read : visit.reads ≠ []) (timely : ∀ read ∈ visit.reads, loop.elapsed ≤ read.moment ∧ read.moment ≤ next.elapsed)
    (others : ∀ graphId, graphId ≠ visit.graphId → next.trackers graphId = loop.trackers graphId)
    (verdict : visit.verdict = some (((loop.trackers visit.graphId).getD (.new config.waveMargin)).observe visit.now
      (visit.reads.map (·.observation))).1)
    (retired : visit.verdict = some .retire → next.trackers visit.graphId = none)
    (kept : visit.verdict ≠ some .retire → next.trackers visit.graphId =
      some (((loop.trackers visit.graphId).getD (.new config.waveMargin)).observe visit.now
        (visit.reads.map (·.observation))).2) :
    Logged config next (log ++ [.visited visit]) := by
  have before := logged.started
  have started : next.now.nanos ≤ next.elapsed := by rw [clock]; omega
  have fresh : (visited visit).Timely := by
    intro read member
    have := (timely read member).1
    change visit.now.nanos ≤ _
    rw [now]
    omega
  have first : loop.elapsed ≤ (visited visit).firstRead := by
    unfold Reading.firstRead
    change _ ≤ (visit.reads.head?.map (·.moment)).getD _
    rw [List.head?_eq_some_head some_read]
    exact (timely _ (List.head_mem some_read)).1
  have last : (visited visit).lastRead ≤ next.elapsed := by
    unfold Reading.lastRead
    change (visit.reads.getLast?.map (·.moment)).getD _ ≤ _
    rw [List.getLast?_eq_some_getLast some_read]
    exact (timely _ (List.getLast_mem some_read)).2
  have same : visit.now = next.now := now.trans clock.symm
  refine logged.log started ⟨later, .inl clock⟩ ?_ ?_ ?_
  · intro graphId
    dsimp only [readingsOf]
    by_cases here : graphId = visit.graphId
    · rw [if_neg (not_not.mpr here.symm), here]
      have followed := (logged.followed visit.graphId).observe (visited visit)
      by_cases retires : visit.verdict = some .retire
      · rw [if_pos retires, retired retires, List.append_cons]
        exact followed_forgotten visit.now
      · rw [if_neg retires, kept retires]
        exact followed
    · rw [if_pos (Ne.symm here), List.append_nil, others graphId here]
      exact logged.followed graphId
  · intro graphId reading member
    have sound : Dated config next (visited visit) :=
      ⟨fresh, by rw [← same]; exact Nat.le_refl _, last, .inl (by rw [← same]; rfl)⟩
    have forgotten : Dated config next ⟨visit.now, []⟩ := by
      rw [same]
      exact dated_forgotten started
    dsimp only [readingsOf] at member
    split at member
    · cases member
    · split at member
      · rcases List.mem_cons.mp member with rfl | ending
        · exact sound
        · rw [List.mem_singleton.mp ending]
          exact forgotten
      · rw [List.mem_singleton.mp member]
        exact sound
  · rintro _ ⟨⟩ retires
    have fires : ∃ first rest, StableRun (readings visit.graphId log ++ [visited visit]) (first :: rest ++ [visited visit]) ∧
        config.waveMargin.nanos ≤ visit.now.nanos - first.now.nanos :=
      (logged.followed visit.graphId).retires (Option.some.inj (verdict.symm.trans retires))
    obtain ⟨opening, rest, stable, apart⟩ := fires
    obtain ⟨ahead, parts⟩ := stable.suffix
    rw [← List.append_assoc] at parts
    have among : opening ∈ readings visit.graphId log := by
      rw [← (List.append_inj' parts rfl).1]
      exact List.mem_append_right _ List.mem_cons_self
    obtain ⟨early, ordered, read, spaced⟩ := logged.dated visit.graphId opening among
    rw [← now] at ordered spaced
    exact ⟨opening, ⟨rest, stable⟩, among, apart, ordered, read.trans first, spaced, early, fresh⟩

theorem Logged.visit {loop next : ReaperLoop} {log more : List SweepLog} {graphId : GraphId}
    {listAgents : Timed (Option (List AgentVisit))} {retireGraph : Timed Bool} (logged : Logged config loop log)
    (visited : Visited config loop graphId listAgents retireGraph (next, more)) : Logged config next (log ++ more) := by
  cases visited with
  | passed retired =>
    rw [List.append_nil]
    exact logged
  | unlisted watched failed => exact logged.forget graphId (by omega)
  | unread watched listed observed =>
    exact logged.forget graphId (by have := observeGraph_took observed; omega)
  | waits watched listed observed judged =>
    obtain ⟨later, some_read, moments⟩ := observeGraph_timely observed
    refine logged.observed rfl (by dsimp only; omega) rfl some_read ?_ ?_ (by rw [judged]) nofun ?_
    · exact fun read member => ⟨by have := (moments read member).1; omega, (moments read member).2⟩
    · exact fun other apart => if_neg apart
    · intro _
      rw [judged]
      exact if_pos rfl
  | retires watched listed observed judged =>
    obtain ⟨later, some_read, moments⟩ := observeGraph_timely observed
    refine logged.observed rfl (by dsimp only; omega) rfl some_read ?_ ?_ (by rw [judged]) (fun _ => if_pos rfl) ?_
    · intro read member
      have := moments read member
      exact ⟨by omega, by dsimp only; omega⟩
    · exact fun other apart => if_neg apart
    · exact fun stays => (stays rfl).elim

theorem Logged.step {loop next : ReaperLoop} {log more : List SweepLog} {call : SweepCall}
    (logged : Logged config loop log) (stepped : (sweeping config).step loop call = some (next, more)) :
    Logged config next (log ++ more) := by
  cases call with
  | sweep slept listGraphs => exact logged.sweep stepped
  | graph listAgents retireGraph =>
    obtain ⟨graphId, pending, -, visited⟩ := graph_ok stepped
    have popped : Logged config { loop with pending } log := logged.quietly logged.started ⟨Nat.le_refl _, .inl rfl⟩ rfl
    exact popped.visit visited

theorem mem_readings {visit : GraphVisit} {later : List SweepLog} (retires : visit.verdict = some .retire) :
    visited visit ∈ readings visit.graphId (.visited visit :: later) := by
  refine List.mem_flatMap.mpr ⟨_, List.mem_cons_self, ?_⟩
  dsimp only [readingsOf]
  rw [if_neg (not_not.mpr rfl), if_pos retires]
  exact List.mem_cons_self

theorem sweeping_logged {calls : List SweepCall} {final : ReaperLoop} {log : List SweepLog}
    (ran : (sweeping config).run .start calls = some (final, log)) : Logged config final log := by
  apply (sweeping config).history_invariant (fun _ loop log => Logged config loop log) _ _ ran
  · exact ⟨Nat.le_refl _, fun _ => followed_nil, nofun, fun earlier _ _ whole => by cases earlier <;> cases whole⟩
  · exact fun _ loop log call next more logged stepped => logged.step stepped

/-- A graph is retired after the margin in real time exactly when what the window's first sweep
takes up to the graph's last snapshot is no more than what the last sweep takes up to the first one,
and the time by which the two sweeps start further apart than the margin. Where the reaper sleeps
for the margin, it always is. -/
theorem window_honoured_iff (config : ReaperConfig) (calls : List SweepCall) (final : ReaperLoop) (earlier later : List SweepLog)
    (visit : GraphVisit) (ran : (sweeping config).run .start calls = some (final, earlier ++ .visited visit :: later))
    (retires : visit.verdict = some .retire) :
    ∃ first, OpensWindow earlier visit first ∧ (∀ other, OpensWindow earlier visit other → other = first) ∧
      (∃ opening : Occasion, opening.Yields config visit.graphId first ∧ opening.calls <+: calls) ∧
      (∃ ending : Occasion, ending.Yields config visit.graphId (visited visit) ∧ ending.calls <+: calls) ∧
      (∀ opening ending : Occasion, opening.Yields config visit.graphId first →
        ending.Yields config visit.graphId (visited visit) →
          (Honoured config.waveMargin first (visited visit) ↔
            opening.untilLast config + config.waveMargin.nanos ≤
              ending.untilFirst config + (ending.begins config - opening.begins config))) ∧
      (config.waveMargin.nanos ≤ config.interval.nanos → Honoured config.waveMargin first (visited visit)) := by
  obtain ⟨first, fired⟩ := (sweeping_logged ran).fired earlier visit later rfl retires
  obtain ⟨rest, stable⟩ := fired.opens
  have sited := sweeping_sited ran
  have seen : ∀ reading ∈ first :: rest ++ [visited visit], reading.reads ≠ [] := by
    intro reading member empty
    exact (stable.calm.good reading member).1 (congrArg (List.map SnapshotRead.observation) empty)
  refine ⟨first, ⟨rest, stable⟩, ?_, ?_, ?_, ?_, ?_⟩
  · intro other ⟨more, again⟩
    exact (List.cons.inj (again.unique stable)).1
  · apply sited.read visit.graphId first _ (seen first List.mem_cons_self)
    rw [readings_append]
    exact List.mem_append_left _ fired.among
  · apply sited.read visit.graphId (visited visit) _ (seen _ (List.mem_append_right _ List.mem_cons_self))
    rw [readings_append]
    exact List.mem_append_right _ (mem_readings retires)
  · rintro opening ending ⟨begun, loop, opened⟩ ⟨begun', loop', ended⟩
    have starts := opened.begins.1
    have starts' := ended.begins.1
    have ordered := fired.ordered
    change visit.now.nanos = _ at starts'
    unfold Honoured
    rw [opened.moments.2, ended.moments.1]
    omega
  · intro long
    have late := fired.late.firstRead
    have ordered := fired.after
    have apart := fired.apart
    change visit.now.nanos ≤ _ at late
    unfold Honoured
    rcases fired.spaced with same | slept
    · omega
    · omega

end Run

section Examples

private def seconds (count : Nat) : Nat := count * 1000000000

private def done : AgentSnapshot where
  pendingTriggersCount := 0
  pendingHumanOpsCount := 0
  pendingMandatePatchesCount := 0
  retirementRequest := none
  recentOutputIds := []
  cumulativeTriggersObserved := 3
  cumulativeHumanOpsObserved := 0
  cumulativeMandatePatchesObserved := 0
  parked := true
  isNever := true
  tick := 1
  nextWake := none

private def unserved : GraphId := ⟨⟨0⟩⟩

private def finished : GraphId := ⟨⟨1⟩⟩

/-- Two graphs are visited, one after the other; the query of the first takes its time. -/
private def sweepOf (slept slow : Nat) : List SweepCall :=
  [.sweep slept ⟨some [unserved, finished], 0⟩,
    .graph ⟨some [⟨"unserved", ⟨.running, 0⟩, ⟨none, slow⟩⟩], 0⟩ ⟨true, 0⟩,
    .graph ⟨some [⟨"finished", ⟨.running, 0⟩, ⟨some done, 0⟩⟩], 0⟩ ⟨true, 0⟩]

private def hurried : ReaperConfig := ⟨⟨seconds 7⟩, ⟨seconds 10⟩⟩

private def readAt (start moment : Nat) : Reading := ⟨⟨seconds start⟩, [⟨⟨"finished", done⟩, seconds moment⟩]⟩

private def seen (reading : Reading) (verdict : Verdict) : SweepLog := .visited ⟨finished, reading.now, reading.reads, some verdict⟩

private def unread (start : Nat) : List SweepLog :=
  [.swept ⟨seconds start⟩ [unserved, finished], .visited ⟨unserved, ⟨seconds start⟩, [], none⟩]

private theorem opens_after {earlier : List SweepLog} {start moment last final : Nat}
    (history : readings finished earlier = [readAt start moment]) :
    OpensWindow earlier ⟨finished, ⟨seconds last⟩, [⟨⟨"finished", done⟩, seconds final⟩], some .retire⟩ (readAt start moment) := by
  refine ⟨[], ?_⟩
  rw [history]
  have quiet : ∀ start moment, (readAt start moment).sample.Quiet := by
    intro start moment
    refine ⟨List.cons_ne_nil _ _, ?_⟩
    intro agent member
    rw [List.mem_singleton.mp member]
    exact (by decide : agentQuiescent done = true)
  have agents : ∀ start moment, (readAt start moment).sample.agents = [⟨"finished", done⟩] := fun _ _ => rfl
  have alike : (readAt start moment).sample.rows = (readAt last final).sample.rows := by
    unfold Sample.rows
    rw [agents, agents]
  change StableRun ([] ++ [readAt start moment] ++ [readAt last final]) ([readAt start moment] ++ [readAt last final])
  have opened : StableRun ([] ++ [readAt start moment]) [readAt start moment] :=
    LastRun.nil.restarted (quiet start moment) nofun
  exact opened.extended (quiet last final) alike

/-- In the first sweep a query that times out comes before the graph is read. -/
theorem window_cut_short : ∃ final,
    (sweeping hurried).run .start (sweepOf (seconds 7) (seconds 60) ++ sweepOf (seconds 7) 0) = some (final,
      (unread 7 ++ [seen (readAt 7 12) .wait] ++ unread 19) ++ [seen (readAt 19 19) .retire]) ∧
    OpensWindow (unread 7 ++ [seen (readAt 7 12) .wait] ++ unread 19)
      ⟨finished, ⟨seconds 19⟩, (readAt 19 19).reads, some .retire⟩ (readAt 7 12) ∧
    ¬ Honoured hurried.waveMargin (readAt 7 12) (readAt 19 19) := by
  have ran : ((sweeping hurried).run .start (sweepOf (seconds 7) (seconds 60) ++ sweepOf (seconds 7) 0)).map (·.2) =
      some ((unread 7 ++ [seen (readAt 7 12) .wait] ++ unread 19) ++ [seen (readAt 19 19) .retire]) := by decide +kernel
  obtain ⟨⟨final, log⟩, ended, rfl⟩ := Option.map_eq_some_iff.mp ran
  exact ⟨final, ended, opens_after (by decide +kernel), by unfold Honoured; decide⟩

/-- The visit of the graph that comes second in such a sweep. -/
private def visitOf (past : List SweepCall) (slept slow : Nat) : Occasion where
  past
  slept
  listGraphs := ⟨some [unserved, finished], 0⟩
  before := [.graph ⟨some [⟨"unserved", ⟨.running, 0⟩, ⟨none, slow⟩⟩], 0⟩ ⟨true, 0⟩]
  agents := [⟨"finished", ⟨.running, 0⟩, ⟨some done, 0⟩⟩]
  listed := 0
  retireGraph := ⟨true, 0⟩

private theorem visitOf_yields {past : List SweepCall} {slept slow : Nat} {reading : Reading}
    (found : (((sweeping hurried).run .start (visitOf past slept slow).opening).bind fun (begun, _) =>
      ((sweeping hurried).run begun (visitOf past slept slow).before).map fun (loop, _) =>
        (begun.now, loop.pending.head?, (observeGraph loop.elapsed (visitOf past slept slow).agents).1)) =
      some (reading.now, some finished, some reading.reads)) :
    (visitOf past slept slow).Yields hurried finished reading := by
  obtain ⟨⟨begun, log⟩, opened, rest⟩ := Option.bind_eq_some_iff.mp found
  obtain ⟨⟨loop, more⟩, came, same⟩ := Option.map_eq_some_iff.mp rest
  obtain ⟨now, pending⟩ := Prod.mk.inj same
  obtain ⟨head, reads⟩ := Prod.mk.inj pending
  refine ⟨begun, loop, ⟨log, opened⟩, ⟨more, came⟩, ?_, head, now.symm, _, Prod.ext reads rfl⟩
  intro call member
  exact ⟨_, _, List.mem_singleton.mp member⟩

/-- Both sweeps are held up for three seconds, and start thirteen seconds apart. -/
theorem window_honoured_iff_punctual :
    OpensWindow (unread 10 ++ [seen (readAt 10 13) .wait] ++ unread 23)
        ⟨finished, ⟨seconds 23⟩, (readAt 23 26).reads, some .retire⟩ (readAt 10 13) ∧
      Honoured hurried.waveMargin (readAt 10 13) (readAt 23 26) := by
  have ran : ((sweeping hurried).run .start (sweepOf (seconds 10) (seconds 3) ++ sweepOf (seconds 10) (seconds 3))).map (·.2) =
      some ((unread 10 ++ [seen (readAt 10 13) .wait] ++ unread 23) ++ [seen (readAt 23 26) .retire]) := by decide +kernel
  obtain ⟨⟨final, log⟩, ended, rfl⟩ := Option.map_eq_some_iff.mp ran
  obtain ⟨first, opens, unique, -, -, honoured, -⟩ := window_honoured_iff hurried _ final _ [] _ ended rfl
  have opened := unique (readAt 10 13) (opens_after (by decide +kernel))
  rw [← opened] at opens honoured
  have opening : (visitOf [] (seconds 10) (seconds 3)).Yields hurried finished (readAt 10 13) :=
    visitOf_yields (by decide +kernel)
  have ending : (visitOf (sweepOf (seconds 10) (seconds 3)) (seconds 10) (seconds 3)).Yields hurried finished (readAt 23 26) :=
    visitOf_yields (by decide +kernel)
  exact ⟨opens, (honoured _ _ opening ending).mpr (by decide +kernel)⟩

end Examples

end Coral.Worker.Proofs

import Coral.Proofs.DecisionEncoding
import Coral.Proofs.WorkflowInvariant
import Coral.Temporal.InputReading

/-! What a workflow hands to a run that continues it, and to a child that it starts, as it is
read again at the other end. A size that has been read fits, and one that fits is read back. -/

namespace Coral.Temporal.Proofs
open Coral.Library Coral.Proofs Json

section Fits

def RemainderFits : Remainder → Prop
  | .none => True
  | .exactly count | .atLeast count => count ≤ u64Max

structure SeedFits (seed : Seed) : Prop where
  mandate : MandateFits seed.mandate
  notes : RemainderFits seed.index.notesMore
  outputs : RemainderFits seed.index.outputsMore

structure SessionFits (session : Session) : Prop where
  seed : SeedFits session.seed
  steps : ∀ step ∈ session.steps, DecisionFits step.action

/-- Its whole seconds are a `u64`. -/
def SecondsFit (duration : Duration) : Prop := duration.nanos / 1000000000 ≤ u64Max

structure CarryoverFits (carryover : Carryover) : Prop where
  wake : ∀ duration, carryover.schedulerCursor.nextWake = some duration → SecondsFit duration
  session : ∀ session, carryover.inFlight = some session → SessionFits session

structure InputFits (input : AgentInput) : Prop where
  mandate : MandateFits input.mandate
  carryover : ∀ carryover, input.carryover = some carryover → CarryoverFits carryover

end Fits

section Written

theorem object_ne_null (members : List (String × Json)) : Json.object members ≠ .null := by
  intro same
  cases same

theorem bind_found {α β : Type} {value : Option α} {next : α → Option β} {middle : α} {result : β}
    (found : value = some middle) (after : next middle = some result) : value.bind next = some result :=
  Option.bind_eq_some_iff.mpr ⟨middle, found, after⟩

theorem required_found {α : Type} {fields : Members} {name : String} {value : Json} {result : α}
    {reader : Json → Option α} (there : fields name = some value) (reads : reader value = some result) :
    fields.required name reader = some result :=
  bind_found there reads

theorem defaulted_found {α : Type} {fields : Members} {name : String} {value : Json} {default result : α}
    {reader : Json → Option α} (there : fields name = some value) (reads : reader value = some result) :
    fields.defaulted name default reader = some result := by
  unfold Members.defaulted
  rw [there]
  exact reads

theorem duration_inverts {duration : Duration} (fits : SecondsFit duration) :
    Duration.ofJson duration.toJson = some duration := by
  have whole : duration.nanos / 1000000000 * 1000000000 + duration.nanos % 1000000000 = duration.nanos :=
    Nat.div_add_mod' ..
  have below : duration.nanos % 1000000000 ≤ 4294967295 := by
    have small := Nat.mod_lt duration.nanos (show 0 < 1000000000 by decide)
    omega
  have none_over : duration.nanos % 1000000000 / 1000000000 = 0 := Nat.div_eq_of_lt (Nat.mod_lt _ (by decide))
  unfold Duration.ofJson Duration.toJson
  simpa [lookup_ne, List.lookup_cons_self, readNat_nat fits, readNat_nat below, none_over, whole]
    using show duration.nanos / 1000000000 ≤ u64Max from fits

theorem trigger_inverts (trigger : Trigger) : Trigger.ofJson trigger.toJson = some trigger := by
  unfold Trigger.ofJson Trigger.toJson
  cases trigger <;>
    simp [Json.members, Members.required, Trigger.ofMembers, lookup_ne, List.lookup_cons_self, Json.asStr, HumanOp.ofJson,
      HumanOp.toJson, agentRef_inverts, outputId_inverts]

theorem remainder_inverts {remainder : Remainder} (fits : RemainderFits remainder) :
    Remainder.ofJson remainder.toJson = some remainder := by
  unfold Remainder.toJson
  cases remainder with
  | none => rfl
  | exactly count => exact congrArg (Option.map Remainder.exactly) (readNat_nat fits)
  | atLeast count => exact congrArg (Option.map Remainder.atLeast) (readNat_nat fits)

theorem fsIndex_inverts {index : FsIndex} (notes : RemainderFits index.notesMore)
    (outputs : RemainderFits index.outputsMore) : FsIndex.ofJson index.toJson = some index := by
  unfold FsIndex.ofJson FsIndex.toJson
  simp [Json.members, Members.defaulted, lookup_ne, List.lookup_cons_self, readItems_strings, remainder_inverts notes,
    remainder_inverts outputs]

theorem seed_inverts {seed : Seed} (fits : SeedFits seed) : Seed.ofJson seed.toJson = some seed := by
  have triggers := readItems_list fun (trigger : Trigger) (_ : trigger ∈ seed.triggers) => trigger_inverts trigger
  unfold Seed.ofJson Seed.toJson
  simp [Json.members, Members.required, lookup_ne, List.lookup_cons_self, mandate_inverts fits.mandate, triggers,
    fsIndex_inverts fits.notes fits.outputs]

theorem decision_inverts {decision : Decision} (fits : DecisionFits decision) :
    Decision.ofJson decision.toJson = some decision := by
  rw [toJson_tagged]
  unfold Decision.ofJson
  simp only [Json.members, Option.bind_eq_bind, Option.bind_some, Members.required, List.lookup_cons_self, Json.asStr]
  rw [← ofMembers_fields fits]
  apply ofMembers_congr
  intro name other
  exact lookup_ne other

theorem observation_inverts (observation : Observation) : Observation.ofJson observation.toJson = some observation := by
  unfold Observation.ofJson Observation.toJson
  simp [Json.members, Members.required, lookup_ne, List.lookup_cons_self, Json.asStr, Json.readBool]

theorem step_inverts {step : Step} (fits : DecisionFits step.action) : Step.ofJson step.toJson = some step := by
  unfold Step.ofJson Step.toJson
  simp [Json.members, Members.required, lookup_ne, List.lookup_cons_self, decision_inverts fits, observation_inverts]

theorem session_inverts {session : Session} (fits : SessionFits session) :
    Session.ofJson session.toJson = some session := by
  have steps := readItems_list fun step member => step_inverts (fits.steps step member)
  unfold Session.ofJson Session.toJson
  simp [Json.members, Members.required, lookup_ne, List.lookup_cons_self, seed_inverts fits.seed, steps]

theorem carryover_inverts {carryover : Carryover} (fits : CarryoverFits carryover) :
    Carryover.ofJson carryover.toJson = some carryover := by
  obtain ⟨triggers, humanOps, patches, request, cursor, children, output, observed, overridden, patched, tick, inFlight⟩ :=
    carryover
  have read := readItems_list fun (trigger : Trigger) (_ : trigger ∈ triggers) => trigger_inverts trigger
  have ops := @readItems_list _ HumanOp.toJson HumanOp.ofJson humanOps fun _ _ => rfl
  have updates := @readItems_list _ MandatePatch.toJson MandatePatch.ofJson patches fun _ _ => rfl
  have handles := readItems_list fun (child : AgentRef) (_ : child ∈ children) => agentRef_inverts child
  have asked := @readOption_option _ Json.string asStr request nofun fun _ _ => rfl
  have last := @readOption_option _ OutputId.toJson OutputId.ofJson output nofun fun _ _ => rfl
  have session := @readOption_option _ Session.toJson Session.ofJson inFlight (fun _ => object_ne_null _)
    fun session same => session_inverts (fits.session session same)
  have wakes := @readOption_option _ Duration.toJson Duration.ofJson cursor.nextWake (fun _ => object_ne_null _)
    fun duration same => duration_inverts (fits.wake duration same)
  have scheduled : SchedulerCursor.ofJson (.object [("next_wake", .option Duration.toJson cursor.nextWake)]) =
      some cursor := by
    unfold SchedulerCursor.ofJson
    simp [Json.members, Members.defaulted, List.lookup_cons_self, wakes]
  unfold Carryover.ofJson Carryover.toJson
  refine bind_found rfl ?_
  refine bind_found (required_found rfl read) ?_
  refine bind_found (required_found rfl ops) ?_
  refine bind_found (required_found rfl updates) ?_
  refine bind_found (defaulted_found rfl asked) ?_
  refine bind_found (required_found rfl scheduled) ?_
  refine bind_found (required_found rfl handles) ?_
  refine bind_found (defaulted_found rfl last) ?_
  refine bind_found (required_found rfl (readU64_nat observed)) ?_
  refine bind_found (required_found rfl (readU64_nat overridden)) ?_
  refine bind_found (required_found rfl (readU64_nat patched)) ?_
  refine bind_found (required_found rfl (readU64_nat tick)) ?_
  exact bind_found (defaulted_found rfl session) rfl

theorem graphId_inverts (id : GraphId) : GraphId.ofJson id.toJson = some id := by
  unfold GraphId.ofJson GraphId.toJson GraphId.toString
  simp only [Json.asStr, Option.bind_eq_bind, Option.bind_some, ofHyphenated_hyphenated]
  rfl

theorem input_inverts {input : AgentInput} (fits : InputFits input) : AgentInput.ofJson input.toJson = some input := by
  obtain ⟨cfg, fsHandle, parentHandle, carryover, mandate, graphId, agentId, agentName⟩ := input
  have carried := @readOption_option _ Carryover.toJson Carryover.ofJson carryover (fun _ => object_ne_null _)
    fun carryover same => carryover_inverts (fits.carryover carryover same)
  have handle : FsHandle.ofJson (.object [("prefix", .string fsHandle.storagePrefix)]) = some fsHandle := rfl
  have parent := @readOption_option _ (fun parent : ParentRef => Json.object [("workflow_id", .string parent.workflowId),
    ("signal", .string parent.signal)]) ParentRef.ofJson parentHandle (fun _ => object_ne_null _) fun _ _ => rfl
  have empty : AgentConfig.ofJson (.object []) = some cfg := rfl
  unfold AgentInput.ofJson AgentInput.toJson
  refine bind_found rfl ?_
  refine bind_found (required_found rfl empty) ?_
  refine bind_found (required_found rfl handle) ?_
  refine bind_found (defaulted_found rfl parent) ?_
  refine bind_found (defaulted_found rfl carried) ?_
  refine bind_found (required_found rfl (mandate_inverts fits.mandate)) ?_
  refine bind_found (required_found rfl (graphId_inverts graphId)) ?_
  refine bind_found (required_found rfl (agentId_inverts agentId)) ?_
  exact bind_found (required_found rfl rfl) rfl

end Written

section Read

theorem readNat_fits {max size : Nat} {value : Json} (read : value.readNat max = some size) : size ≤ max := by
  unfold Json.readNat at read
  split at read
  · split at read
    · rename_i fits
      cases read
      exact fits
    · cases read
  · cases read

theorem readOption_read {α : Type} {reader : Json → Option α} {value : Json} {inner : α}
    (read : value.readOption reader = some (some inner)) : reader value = some inner := by
  cases value with
  | null => cases read
  | _ =>
    obtain ⟨found, same, here⟩ := Option.map_eq_some_iff.mp read
    rw [same, Option.some.inj here]

/-- A member that is there has been read, and one that is not has its default. -/
theorem defaulted_read {α : Type} {fields : Members} {name : String} {default result : α} {reader : Json → Option α}
    (read : fields.defaulted name default reader = some result) :
    (∃ value, reader value = some result) ∨ result = default := by
  unfold Members.defaulted at read
  split at read
  · exact .inl ⟨_, read⟩
  · exact .inr (Option.some.inj read).symm

theorem optional_read {α : Type} {fields : Members} {name : String} {result : Option α} {reader : Json → Option α}
    (read : fields.defaulted name none (readOption reader) = some result) :
    ∀ inner, result = some inner → ∃ value, reader value = some inner := by
  rintro inner rfl
  rcases defaulted_read read with ⟨value, found⟩ | absent
  · exact ⟨value, readOption_read found⟩
  · cases absent

theorem required_read {α : Type} {fields : Members} {name : String} {result : α} {reader : Json → Option α}
    (read : fields.required name reader = some result) : ∃ value, reader value = some result := by
  obtain ⟨value, -, found⟩ := Option.bind_eq_some_iff.mp read
  exact ⟨value, found⟩

theorem items_read {α : Type} {reader : Json → Option α} {value : Json} {results : List α}
    (read : value.readItems reader = some results) : ∀ result ∈ results, ∃ item, reader item = some result := by
  unfold Json.readItems at read
  split at read
  · rename_i items
    induction items generalizing results with
    | nil =>
      cases read
      intro result member
      cases member
    | cons item items ih =>
      simp only [List.mapM_cons, Option.bind_eq_bind, Option.bind_eq_some_iff, Option.pure_def, Option.some.injEq] at read
      obtain ⟨first, here, rest, later, rfl⟩ := read
      intro result member
      rcases List.mem_cons.mp member with rfl | among
      · exact ⟨item, here⟩
      · exact ih later result among
  · cases read

theorem millis_read {value : Json} {duration : Duration} (read : Duration.ofMillisJson value = some duration) :
    WholeMillis duration := by
  obtain ⟨millis, found, same⟩ := Option.map_eq_some_iff.mp read
  exact ⟨millis, readNat_fits found, same.symm⟩

theorem retryPolicy_read {value : Json} {policy : RetryPolicy} (read : RetryPolicy.ofJson value = some policy) :
    WholeMillis policy.backoff := by
  unfold RetryPolicy.ofJson at read
  simp only [Option.bind_eq_bind, Option.bind_eq_some_iff, Option.pure_def, Option.some.injEq] at read
  obtain ⟨fields, -, attempts, -, backoff, found, rfl⟩ := read
  obtain ⟨value, millis⟩ := required_read found
  exact millis_read millis

theorem size_read {fields : Members} {name : String} {default size : Nat} (small : default ≤ u64Max)
    (read : fields.defaulted name default (readNat u64Max) = some size) : size ≤ u64Max := by
  rcases defaulted_read read with ⟨value, found⟩ | rfl
  · exact readNat_fits found
  · exact small

theorem mandate_read {value : Json} {mandate : Mandate} (read : Mandate.ofJson value = some mandate) :
    MandateFits mandate := by
  unfold Mandate.ofJson at read
  simp only [Option.bind_eq_bind, Option.bind_eq_some_iff, Option.pure_def, Option.some.injEq] at read
  obtain ⟨fields, -, text, -, idlePeriod, idle, stepCap, -, retryPolicy, retry, contextPolicy, context, model, -, tools, -,
    rfl⟩ := read
  have sizes : contextPolicy.recentOutputs ≤ u64Max ∧ contextPolicy.recentEvidence ≤ u64Max ∧
      contextPolicy.openClaimsMax ≤ u64Max := by
    rcases defaulted_read context with ⟨value, found⟩ | rfl
    · unfold ContextPolicy.ofJson at found
      simp only [Option.bind_eq_bind, Option.bind_eq_some_iff, Option.pure_def, Option.some.injEq] at found
      obtain ⟨members, -, outputs, first, evidence, second, claims, third, rfl⟩ := found
      exact ⟨size_read (by decide) first, size_read (by decide) second, size_read (by decide) third⟩
    · exact ⟨by decide, by decide, by decide⟩
  refine ⟨?_, ?_, sizes.1, sizes.2.1, sizes.2.2⟩
  · rintro period rfl
    obtain ⟨value, found⟩ := required_read idle
    exact millis_read (readOption_read found)
  · rintro policy rfl
    obtain ⟨value, found⟩ := optional_read retry policy rfl
    exact retryPolicy_read found

theorem conflictIntent_read {value : Json} {intent : ConflictRecordIntent}
    (read : ConflictRecordIntent.ofJson value = some intent) :
    ∀ resolution, intent.resolution = some resolution → resolution.chosenAlternativeIdx ≤ u64Max := by
  unfold ConflictRecordIntent.ofJson at read
  simp only [Option.bind_eq_bind, Option.bind_eq_some_iff, Option.pure_def, Option.some.injEq] at read
  obtain ⟨fields, -, alternatives, -, resolved, found, rfl⟩ := read
  intro resolution same
  obtain ⟨value, chosen⟩ := optional_read found resolution same
  unfold ConflictResolution.ofJson at chosen
  simp only [Option.bind_eq_bind, Option.bind_eq_some_iff, Option.pure_def, Option.some.injEq] at chosen
  obtain ⟨members, -, index, first, reasoning, -, rfl⟩ := chosen
  obtain ⟨value, size⟩ := required_read first
  exact readNat_fits size

theorem decision_read {value : Json} {decision : Decision} (read : Decision.ofJson value = some decision) :
    DecisionFits decision := by
  unfold Decision.ofJson at read
  simp only [Option.bind_eq_bind, Option.bind_eq_some_iff] at read
  obtain ⟨fields, -, tag, -, variant⟩ := read
  unfold Decision.ofMembers at variant
  split at variant
  case h_12 => cases variant
  all_goals simp only [Option.bind_eq_bind, Option.bind_eq_some_iff, Option.pure_def, Option.some.injEq] at variant
  case h_7 =>
    obtain ⟨nextAfter, found, rfl⟩ := variant
    obtain ⟨value, millis⟩ := required_read found
    exact millis_read millis
  case h_8 =>
    obtain ⟨agentName, -, mandate, found, rfl⟩ := variant
    obtain ⟨value, spawned⟩ := required_read found
    exact mandate_read spawned
  case h_9 =>
    obtain ⟨sources, -, conflict, found, rfl⟩ := variant
    intro intent same
    obtain ⟨value, recorded⟩ := optional_read found intent same
    exact conflictIntent_read recorded
  case h_11 =>
    obtain ⟨childRef, -, newMandate, found, rfl⟩ := variant
    obtain ⟨value, replaced⟩ := required_read found
    exact mandate_read replaced
  any_goals obtain ⟨_, -, rfl⟩ := variant; trivial
  all_goals
    obtain ⟨_, -, _, -, rfl⟩ := variant
    trivial

theorem remainder_read {value : Json} {remainder : Remainder} (read : Remainder.ofJson value = some remainder) :
    RemainderFits remainder := by
  unfold Remainder.ofJson at read
  split at read
  · cases read
    trivial
  · cases read
    trivial
  · obtain ⟨count, found, rfl⟩ := Option.map_eq_some_iff.mp read
    exact readNat_fits found
  · obtain ⟨count, found, rfl⟩ := Option.map_eq_some_iff.mp read
    exact readNat_fits found
  · cases read

theorem seed_read {value : Json} {seed : Seed} (read : Seed.ofJson value = some seed) : SeedFits seed := by
  unfold Seed.ofJson at read
  simp only [Option.bind_eq_bind, Option.bind_eq_some_iff, Option.pure_def, Option.some.injEq] at read
  obtain ⟨fields, -, mandate, told, triggers, -, index, indexed, rfl⟩ := read
  obtain ⟨value, found⟩ := required_read told
  obtain ⟨pointers, listed⟩ := required_read indexed
  unfold FsIndex.ofJson at listed
  simp only [Option.bind_eq_bind, Option.bind_eq_some_iff, Option.pure_def, Option.some.injEq] at listed
  obtain ⟨members, -, notes, -, outputs, -, notesMore, beyond, outputsMore, further, rfl⟩ := listed
  have fits : ∀ {name : String} {remainder : Remainder},
      members.defaulted name .none Remainder.ofJson = some remainder → RemainderFits remainder := by
    intro name remainder read
    rcases defaulted_read read with ⟨value, found⟩ | rfl
    · exact remainder_read found
    · trivial
  exact ⟨mandate_read found, fits beyond, fits further⟩

theorem session_read {value : Json} {session : Session} (read : Session.ofJson value = some session) :
    SessionFits session := by
  unfold Session.ofJson at read
  simp only [Option.bind_eq_bind, Option.bind_eq_some_iff, Option.pure_def, Option.some.injEq] at read
  obtain ⟨fields, -, seed, told, steps, taken, rfl⟩ := read
  obtain ⟨value, found⟩ := required_read told
  obtain ⟨items, listed⟩ := required_read taken
  refine ⟨seed_read found, ?_⟩
  intro step member
  obtain ⟨item, each⟩ := items_read listed step member
  unfold Step.ofJson at each
  simp only [Option.bind_eq_bind, Option.bind_eq_some_iff, Option.pure_def, Option.some.injEq] at each
  obtain ⟨members, -, action, decided, observation, -, rfl⟩ := each
  obtain ⟨decision, acted⟩ := required_read decided
  exact decision_read acted

theorem duration_read {value : Json} {duration : Duration} (read : Duration.ofJson value = some duration) :
    SecondsFit duration := by
  unfold Duration.ofJson at read
  split at read
  · simp only [Option.bind_eq_bind, Option.bind_eq_some_iff] at read
    obtain ⟨secs, -, nanos, -, whole⟩ := read
    split at whole
    · rename_i fits
      cases whole
      simp only [Bool.and_eq_true, decide_eq_true_eq] at fits
      unfold SecondsFit
      rw [Nat.add_comm, Nat.add_mul_div_right _ _ (by decide), Nat.add_comm]
      exact fits.2
    · cases whole
  · cases read

theorem input_read {value : Json} {input : AgentInput} (read : AgentInput.ofJson value = some input) : InputFits input := by
  unfold AgentInput.ofJson at read
  simp only [Option.bind_eq_bind, Option.bind_eq_some_iff, Option.pure_def, Option.some.injEq] at read
  obtain ⟨fields, -, cfg, -, fsHandle, -, parentHandle, -, carryover, carried, mandate, told, graphId, -, agentId, -,
    agentName, -, rfl⟩ := read
  obtain ⟨value, found⟩ := required_read told
  refine ⟨mandate_read found, ?_⟩
  intro carryover same
  obtain ⟨carry, state⟩ := optional_read carried carryover same
  unfold Carryover.ofJson at state
  obtain ⟨members, -, state⟩ := Option.bind_eq_some_iff.mp state
  obtain ⟨triggers, -, state⟩ := Option.bind_eq_some_iff.mp state
  obtain ⟨humanOps, -, state⟩ := Option.bind_eq_some_iff.mp state
  obtain ⟨patches, -, state⟩ := Option.bind_eq_some_iff.mp state
  obtain ⟨request, -, state⟩ := Option.bind_eq_some_iff.mp state
  obtain ⟨cursor, scheduled, state⟩ := Option.bind_eq_some_iff.mp state
  obtain ⟨children, -, state⟩ := Option.bind_eq_some_iff.mp state
  obtain ⟨output, -, state⟩ := Option.bind_eq_some_iff.mp state
  obtain ⟨observed, -, state⟩ := Option.bind_eq_some_iff.mp state
  obtain ⟨overridden, -, state⟩ := Option.bind_eq_some_iff.mp state
  obtain ⟨patched, -, state⟩ := Option.bind_eq_some_iff.mp state
  obtain ⟨tick, -, state⟩ := Option.bind_eq_some_iff.mp state
  obtain ⟨inFlight, resumed, state⟩ := Option.bind_eq_some_iff.mp state
  cases state
  constructor
  · intro duration wakes
    obtain ⟨moment, cursorRead⟩ := required_read scheduled
    unfold SchedulerCursor.ofJson at cursorRead
    simp only [Option.bind_eq_bind, Option.bind_eq_some_iff, Option.pure_def, Option.some.injEq] at cursorRead
    obtain ⟨names, -, nextWake, next, rfl⟩ := cursorRead
    obtain ⟨written, time⟩ := optional_read next duration wakes
    exact duration_read time
  · intro session there
    obtain ⟨written, resumes⟩ := optional_read resumed session there
    exact session_read resumes

end Read

section Runs

def ExecutingFits : Executing → Prop
  | .registerChild _ mandate | .signalRetire _ (some (_, mandate)) => MandateFits mandate
  | _ => True

def AwaitFits : Await → Prop
  | .decideStep session _ => SessionFits session
  | .logDecision session _ action => SessionFits session ∧ DecisionFits action
  | .executeAction session _ action executing => SessionFits session ∧ DecisionFits action ∧ ExecutingFits executing
  | _ => True

structure ContextFits (ctx : Context) : Prop where
  mandate : MandateFits ctx.input.mandate
  wake : ∀ duration, ctx.state.nextWake = some duration → SecondsFit duration

/-- What goes to another run, to a child, to a parent or to the model is read as it was written. -/
def ReadBack : Effect → Prop
  | .continueAsNew next | .startChild _ next => AgentInput.ofJson next.toJson = some next
  | .signalWorkflow _ (.externalSignal trigger) => Trigger.ofJson trigger.toJson = some trigger
  | .activity (.decideStep session) => Session.ofJson session.toJson = some session
  | _ => True

/-- What comes from an activity has been read off the wire. -/
def ReadOff : Event → Prop
  | .reply (.seedBuilt seed) _ => ∃ value, Seed.ofJson value = some seed
  | .reply (.decided action) _ => ∃ value, Decision.ofJson value = some action
  | _ => True

structure Legible (result : Run × List Effect) : Prop where
  context : ContextFits result.1.toContext
  await : AwaitFits result.1.await
  read : ∀ effect ∈ result.2, ReadBack effect

variable {ctx : Context}

theorem SessionFits.push {session : Session} {action : Decision} (fits : SessionFits session) (acts : DecisionFits action)
    (observation : Observation) : SessionFits (session.push action observation) := by
  refine ⟨fits.seed, ?_⟩
  intro step member
  rcases List.mem_append.mp member with earlier | last
  · exact fits.steps step earlier
  · rw [List.mem_singleton.mp last]
    exact acts

theorem secondsFit_wholeMillis {duration : Duration} (whole : WholeMillis duration) : SecondsFit duration := by
  obtain ⟨millis, bound, rfl⟩ := whole
  exact Nat.le_trans (Nat.div_le_div_right (Nat.mul_le_mul_left millis (by decide : 1000000 ≤ 1000000000)))
    (by rwa [Nat.mul_div_cancel _ (by decide)])

theorem encodeCarryover_fits (fits : ContextFits ctx) : CarryoverFits ctx.state.encodeCarryover := by
  refine ⟨fits.wake, ?_⟩
  intro session absent
  cases absent

theorem schedule_legible (fits : ContextFits ctx) {activity : Activity} {await : Await} (waits : AwaitFits await)
    (read : ReadBack (.activity activity)) : Legible (ctx.schedule activity await) := by
  refine ⟨fits, waits, ?_⟩
  intro effect member
  rw [List.mem_singleton.mp member]
  exact read

theorem retire_legible (fits : ContextFits ctx) (reason : String) : Legible (ctx.retire reason) := by
  unfold Context.retire
  exact schedule_legible fits trivial trivial

theorem commitTick_legible (fits : ContextFits ctx) : Legible ctx.commitTick := by
  unfold Context.commitTick
  exact schedule_legible fits trivial trivial

theorem decideStep_legible (fits : ContextFits ctx) {session : Session} (carries : SessionFits session) (step : UInt64) :
    Legible (ctx.decideStep session step) :=
  schedule_legible fits carries (session_inverts carries)

theorem close_legible (fits : ContextFits ctx) (outcome : Outcome) : Legible (ctx.close outcome) := by
  refine ⟨fits, trivial, ?_⟩
  intro effect member
  rw [List.mem_singleton.mp member]
  trivial

theorem waitForTick_legible (fits : ContextFits ctx) : Legible ctx.waitForTick := by
  refine ⟨⟨fits.mandate, fits.wake⟩, trivial, ?_⟩
  intro effect member
  obtain ⟨after, rfl⟩ := waitForTick_quiet ctx effect member
  trivial

theorem loopTop_legible (fits : ContextFits ctx) {resume : Option Session}
    (carries : ∀ session, resume = some session → SessionFits session) : Legible (ctx.loopTop resume) := by
  unfold Context.loopTop
  split
  · exact retire_legible fits _
  · exact waitForTick_legible fits
  · split
    · refine retire_legible ?_ _
      exact ⟨fits.mandate, fits.wake⟩
    · exact decideStep_legible fits (carries _ rfl) _

theorem begin_legible (workflowId : String) {input : AgentInput} (fits : InputFits input) :
    Legible (begin workflowId input) := by
  unfold begin
  cases carried : input.carryover with
  | none =>
    refine loopTop_legible ⟨fits.mandate, ?_⟩ ?_
    · intro duration absent
      cases absent
    · intro session absent
      cases absent
  | some carryover =>
    have carries := fits.carryover carryover carried
    exact loopTop_legible ⟨fits.mandate, carries.wake⟩ carries.session

theorem Legible.emit {result : Run × List Effect} (legible : Legible result) {effect : Effect} (read : ReadBack effect) :
    Legible (emit effect result) :=
  ⟨legible.context, legible.await, List.forall_mem_cons.mpr ⟨read, legible.read⟩⟩

theorem continueAsNew_legible {next : AgentInput} (fits : InputFits next) : Legible (ctx.continueAsNew next) :=
  (begin_legible ctx.workflowId fits).emit (input_inverts fits)

theorem leaveGate_legible (fits : ContextFits ctx) : Legible ctx.leaveGate := by
  have drained : ContextFits { ctx with state := (drainBuckets { ctx.state with parked := false }).2 } :=
    ⟨fits.mandate, fits.wake⟩
  unfold Context.leaveGate
  simp only
  split
  · exact (retire_legible drained _).emit trivial
  · refine Legible.emit ?_ trivial
    exact schedule_legible drained trivial trivial

theorem cycleBoundary_legible (fits : ContextFits ctx) (suggested : Bool) : Legible (ctx.cycleBoundary suggested) := by
  have bumped : ContextFits ctx.bumpTick := ⟨fits.mandate, fits.wake⟩
  unfold Context.cycleBoundary
  simp only
  split
  · refine continueAsNew_legible ⟨fits.mandate, ?_⟩
    rintro carryover ⟨⟩
    exact encodeCarryover_fits bumped
  · refine loopTop_legible bumped ?_
    intro session absent
    cases absent

theorem afterExecute_legible (fits : ContextFits ctx) {session : Session} {action : Decision}
    (carries : SessionFits session) (acts : DecisionFits action) (step : UInt64) (observation : Observation)
    (suggested : Bool) :
    Legible (ctx.afterExecute session step action observation suggested) := by
  have pushed := carries.push acts observation
  unfold Context.afterExecute
  simp only
  split
  · exact (commitTick_legible fits).emit trivial
  · split
    · split
      · refine Legible.emit ?_ trivial
        refine commitTick_legible ⟨fits.mandate, ?_⟩
        rintro duration ⟨⟩
        exact secondsFit_wholeMillis ⟨1, by decide, rfl⟩
      · refine continueAsNew_legible ⟨fits.mandate, ?_⟩
        rintro carryover ⟨⟩
        refine ⟨(encodeCarryover_fits fits).wake, ?_⟩
        rintro resumed ⟨⟩
        exact pushed
    · exact decideStep_legible fits pushed step

theorem executeAction_legible {action : Decision} (acts : DecisionFits action) {executing : Executing}
    {effects : List Effect} (asked : ctx.executeAction action = some (executing, effects)) :
    ExecutingFits executing ∧ ∀ effect ∈ effects, ReadBack effect := by
  cases action <;> cases asked <;> first
    | exact ⟨acts, by simp [ReadBack]⟩
    | exact ⟨trivial, by simp [ReadBack]⟩

theorem afterLog_legible (fits : ContextFits ctx) {session : Session} {action : Decision} (carries : SessionFits session)
    (acts : DecisionFits action) (step : UInt64) : Legible (ctx.afterLog session step action) := by
  unfold Context.afterLog
  split
  · rename_i nextAfter idles
    refine commitTick_legible ⟨fits.mandate, ?_⟩
    rintro duration ⟨⟩
    cases action <;> cases idles
    exact secondsFit_wholeMillis acts
  · split
    · rename_i executing effects asked
      obtain ⟨waits, read⟩ := executeAction_legible acts asked
      exact ⟨fits, ⟨carries, acts, waits⟩, read⟩
    · exact close_legible fits .failed

theorem answer_legible {executing next : Executing} (executes : ExecutingFits executing)
    {reply : Reply} {childHandles : List AgentRef} {effects : List Effect}
    (answered : ctx.answer executing reply = some (.asks childHandles (next, effects))) :
    ExecutingFits next ∧ ∀ effect ∈ effects, ReadBack effect := by
  unfold Context.answer at answered
  split at answered <;> try split at answered
  all_goals cases answered
  · exact ⟨trivial, by simp [ReadBack, trigger_inverts]⟩
  · refine ⟨trivial, ?_⟩
    intro effect member
    rw [List.mem_singleton.mp member]
    refine input_inverts ⟨executes, ?_⟩
    intro carryover absent
    cases absent
  · exact ⟨executes, by simp [ReadBack]⟩

theorem resume_legible (fits : ContextFits ctx) {await : Await} (waits : AwaitFits await) {reply : Reply} {suggested : Bool}
    (came : ReadOff (.reply reply suggested)) {result : Run × List Effect}
    (resumed : ctx.resume suggested await reply = some result) : Legible result := by
  unfold Context.resume at resumed
  split at resumed
  case h_1 seed =>
    cases resumed
    obtain ⟨value, read⟩ := came
    refine decideStep_legible fits ⟨seed_read read, ?_⟩ _
    intro step member
    cases member
  case h_2 session step action =>
    cases resumed
    obtain ⟨value, read⟩ := came
    exact schedule_legible fits ⟨waits, decision_read read⟩ trivial
  case h_3 session step action =>
    cases resumed
    exact afterLog_legible fits waits.1 waits.2 step
  case h_4 session step action executing =>
    obtain ⟨answer, answered, shape⟩ := Option.map_eq_some_iff.mp resumed
    subst shape
    obtain ⟨carries, acts, executes⟩ := waits
    cases answer with
    | asks childHandles request =>
      obtain ⟨next, read⟩ := answer_legible executes answered
      exact ⟨⟨fits.mandate, fits.wake⟩, ⟨carries, acts, next⟩, read⟩
    | observes childHandles observation =>
      exact @afterExecute_legible (ctx.withChildren childHandles) ⟨fits.mandate, fits.wake⟩ _ _ carries acts step
        observation suggested
    | fails => exact close_legible fits .failed
  case h_5 =>
    cases resumed
    exact cycleBoundary_legible fits suggested
  case h_6 reason =>
    cases resumed
    unfold Context.retired
    split
    · refine ⟨fits, trivial, ?_⟩
      intro effect member
      rw [List.mem_singleton.mp member]
      exact trigger_inverts _
    · exact close_legible fits _
  case h_13 => cases resumed
  all_goals
    cases resumed
    exact close_legible fits _

theorem step_legible {run : Run} (fits : ContextFits run.toContext) (waits : AwaitFits run.await) {event : Event}
    (came : ReadOff event) {result : Run × List Effect} (stepped : workflow.step run event = some result) :
    Legible result := by
  change run.step event = some result at stepped
  unfold Run.step at stepped
  split at stepped
  case h_1 signal =>
    split at stepped
    · cases stepped
    · cases stepped
      obtain ⟨-, -, -, wake, -⟩ := receive_fixed run.state signal
      refine ⟨⟨fits.mandate, ?_⟩, waits, ?_⟩
      · intro duration same
        exact fits.wake duration (wake.symm.trans same)
      · intro effect member
        cases member
  case h_2 =>
    split at stepped
    · split at stepped <;> cases stepped
      exact leaveGate_legible fits
    · cases stepped
  case h_3 =>
    split at stepped <;> cases stepped
    exact leaveGate_legible fits
  case h_4 => exact resume_legible fits waits came stepped

/-- Whatever a workflow hands over, in whatever life, is read at the other end as it was
written, if its own input and the results of its activities have been read off the wire. The wire
carries JSON values: what their text does to a float is not in the model. -/
theorem handover_read_back {workflowId : String} {input : AgentInput}
    (arrived : ∃ value, AgentInput.ofJson value = some input) {events : List Event}
    (came : ∀ event ∈ events, ReadOff event) {run : Run} {effects : List Effect}
    (lived : lifetime workflowId input events = some (run, effects)) : ∀ effect ∈ effects, ReadBack effect := by
  obtain ⟨value, read⟩ := arrived
  have started := begin_legible workflowId (input_read read)
  have lives : (∀ event ∈ events, ReadOff event) → Legible (run, effects) := by
    refine lifetime_invariant
      (fun events run effects => (∀ event ∈ events, ReadOff event) → Legible (run, effects)) (fun _ => started) ?_ lived
    intro events run effects event next more legible stepped came
    obtain ⟨fits, waits, before⟩ := legible fun event member => came event (List.mem_append_left _ member)
    have last := came event (List.mem_append_right _ List.mem_cons_self)
    obtain ⟨still, then_, after⟩ := step_legible fits waits last stepped
    refine ⟨still, then_, ?_⟩
    intro effect member
    exact (List.mem_append.mp member).elim (before effect) (after effect)
  exact (lives came).read

private def resumedScout : AgentInput := .newForTest ⟨⟨7⟩⟩ ⟨⟨9⟩⟩ "scout"

private def scoutSeed : Seed := ⟨resumedScout.mandate, [.external "mail" (.string "hello")], { notes := ["STATUS.md"] }⟩

/-- The server asks for a new run while the cycle's first step is executed. -/
private def scoutLife : List Event :=
  [.timerFired, .reply (.seedBuilt scoutSeed) false, .reply (.decided (.read "notes/STATUS.md")) false,
    .reply .logged false, .reply (.fsRead (.success "all is well")) true]

private def handsOver : Effect → Bool
  | .continueAsNew _ => true
  | _ => false

theorem handover_read_back_scout : ∃ run effects next, lifetime "scout" resumedScout scoutLife = some (run, effects) ∧
    Effect.continueAsNew next ∈ effects ∧ AgentInput.ofJson next.toJson = some next := by
  have handed : (lifetime "scout" resumedScout scoutLife).map (fun lived => lived.2.any handsOver) = some true := by
    decide +kernel
  obtain ⟨⟨run, effects⟩, lived, some_hand⟩ := Option.map_eq_some_iff.mp handed
  obtain ⟨effect, member, hands⟩ := List.any_eq_true.mp some_hand
  have idle : MandateFits resumedScout.mandate := by
    refine ⟨?_, ?_, by decide, by decide, by decide⟩
    · rintro period ⟨⟩
      exact ⟨0, by decide, rfl⟩
    · intro policy absent
      cases absent
  have read : ∀ effect ∈ effects, ReadBack effect := by
    refine handover_read_back ⟨resumedScout.toJson, input_inverts ⟨idle, ?_⟩⟩ ?_ lived
    · intro carryover absent
      cases absent
    · have seeded : ReadOff (.reply (.seedBuilt scoutSeed) false) :=
        ⟨scoutSeed.toJson, seed_inverts ⟨idle, trivial, trivial⟩⟩
      have decided : ReadOff (.reply (.decided (.read "notes/STATUS.md")) false) :=
        ⟨(Decision.read "notes/STATUS.md").toJson, decision_inverts trivial⟩
      simp only [scoutLife, List.forall_mem_cons]
      exact ⟨trivial, seeded, decided, trivial, trivial, List.forall_mem_nil _⟩
  cases effect with
  | continueAsNew next => exact ⟨run, effects, next, lived, member, read _ member⟩
  | _ => cases hands

end Runs

end Coral.Temporal.Proofs

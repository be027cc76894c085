import Coral.Node.Agent

/-! What a cycle's failures come to against its budget. The counters stop at the greatest
`u32`, and so does what a budget can allow. -/

namespace Coral.Proofs

def u32Max : Nat := 2 ^ 32 - 1

abbrev CycleCall := StepFailure × Clock

/-- The individual failures of a step: one correction, or one for each failed call. -/
def failureErrors : StepFailure → List String
  | .needsCorrection text => [text]
  | .toolError failures => failures.map (·.error)

def failureKind : StepFailure → FailureKind
  | .needsCorrection _ => .inference
  | .toolError _ => .toolCall

/-- How many failures of the kind the calls are told of. -/
def failuresOf (kind : FailureKind) (calls : List CycleCall) : Nat :=
  (calls.map fun call => if failureKind call.1 = kind then (failureErrors call.1).length else 0).sum

def RetryBudget.max (budget : RetryBudget) : FailureKind → UInt32
  | .inference => budget.maxInference
  | .toolCall => budget.maxTool

def used (health : HealthTracker) : FailureKind → UInt32
  | .inference => health.inferenceUsed
  | .toolCall => health.toolUsed

/-- The failures exceed what the budget allows for their kind, as far as a `u32` counts them. -/
def Exceeds (budget : RetryBudget) (kind : FailureKind) (calls : List CycleCall) : Prop :=
  (RetryBudget.max budget kind).toNat < min (failuresOf kind calls) u32Max

def feed (agent : Agent) (calls : List CycleCall) : Agent :=
  calls.foldl (fun agent call => (agent.recordCycleFailure call.1 call.2).2) agent

def incidentAfter (agent : Agent) (before : List CycleCall) (call : CycleCall) : Option HealthIncident :=
  ((feed agent before).recordCycleFailure call.1 call.2).1

/-- None of the calls returns an incident. -/
def Silent (agent : Agent) (calls : List CycleCall) : Prop :=
  ∀ earlier other rest, calls = earlier ++ other :: rest → incidentAfter agent earlier other = none

/-- The call after these is the first that returns an incident. -/
def FirstIncident (agent : Agent) (before : List CycleCall) (call : CycleCall) (incident : HealthIncident) : Prop :=
  Silent agent before ∧ incidentAfter agent before call = some incident

/-- Every failure once and in order, numbered from one. -/
structure Lists (trail : List Attempt) (errors : List String) : Prop where
  told : trail.map (·.error) = errors
  numbered : trail.map (·.attempt) = (List.range errors.length).map fun place => UInt32.ofNat (place + 1)

section Trail

theorem Lists.tried {agent : Agent} {errors : List String} (lists : Lists agent.retryTrail errors) (time : DateTime)
    (error : String) : Lists (agent.tried time error).retryTrail (errors ++ [error]) := by
  have length : agent.retryTrail.length = errors.length := by
    rw [← lists.told, List.length_map]
  constructor
  · rw [show (agent.tried time error).retryTrail = agent.retryTrail ++ [⟨.ofNat agent.retryTrail.length + 1, time, error⟩]
      from rfl, List.map_append, lists.told]
    rfl
  · rw [show (agent.tried time error).retryTrail = agent.retryTrail ++ [⟨.ofNat agent.retryTrail.length + 1, time, error⟩]
      from rfl, List.map_append, lists.numbered, List.length_append, List.length_singleton, List.range_succ, List.map_append,
      length]
    simp

/-- The trail goes on also where the budget is spent. -/
theorem Lists.recordToolFailures {clock : Clock} {failures : List ToolFailure} {reading : Nat}
    {exhausted : Option FailureKind} {agent : Agent} {errors : List String} (lists : Lists agent.retryTrail errors) :
    Lists (agent.recordToolFailures clock failures reading exhausted).2.retryTrail (errors ++ failures.map (·.error)) := by
  induction failures generalizing reading exhausted agent errors with
  | nil => simpa [Agent.recordToolFailures] using lists
  | cons failure failures ih =>
    have tried := lists.tried (clock reading) failure.error
    rw [List.map_cons, List.append_cons]
    unfold Agent.recordToolFailures
    cases exhausted with
    | some kind => exact ih tried
    | none => exact ih tried

theorem Lists.recordCycleFailure {agent : Agent} {errors : List String} (lists : Lists agent.retryTrail errors)
    (call : CycleCall) :
    Lists (agent.recordCycleFailure call.1 call.2).2.retryTrail (errors ++ failureErrors call.1) := by
  obtain ⟨failure, clock⟩ := call
  cases failure with
  | needsCorrection text =>
    have tried := lists.tried (clock 0) text
    unfold Agent.recordCycleFailure
    simp only
    split
    · exact tried
    · exact tried
  | toolError failures =>
    have listed := @lists.recordToolFailures clock failures 0 none
    unfold Agent.recordCycleFailure
    simp only
    split
    · rename_i after recorded
      rw [recorded] at listed
      exact listed
    · rename_i kind after recorded
      rw [recorded] at listed
      exact listed

theorem Lists.feed {agent : Agent} {errors : List String} (lists : Lists agent.retryTrail errors) (calls : List CycleCall) :
    Lists (feed agent calls).retryTrail (errors ++ calls.flatMap fun call => failureErrors call.1) := by
  induction calls generalizing agent errors with
  | nil => simpa [Proofs.feed] using lists
  | cons call calls ih =>
    rw [List.flatMap_cons, ← List.append_assoc]
    exact ih (lists.recordCycleFailure call)

/-- The incident has the trail as the call leaves it. -/
theorem retryTrail_incident {agent : Agent} {call : CycleCall} {incident : HealthIncident}
    (returned : (agent.recordCycleFailure call.1 call.2).1 = some incident) :
    incident.retryTrail = (agent.recordCycleFailure call.1 call.2).2.retryTrail := by
  obtain ⟨failure, clock⟩ := call
  cases failure with
  | needsCorrection text =>
    unfold Agent.recordCycleFailure at returned ⊢
    simp only at returned ⊢
    split at returned
    · rename_i exceeded
      rw [if_pos exceeded]
      cases returned
      rfl
    · cases returned
  | toolError failures =>
    unfold Agent.recordCycleFailure at returned ⊢
    simp only at returned ⊢
    split at returned
    · cases returned
    · cases returned
      rfl

end Trail

section Counters

theorem toNat_saturatingSucc (value : UInt32) : (saturatingSucc value).toNat = min (value.toNat + 1) u32Max := by
  unfold saturatingSucc
  exact UInt32.toNat_ofNat_of_lt' (Nat.lt_of_le_of_lt (Nat.min_le_right ..) (by decide))

/-- So many failures of each kind are counted. -/
def Counts (health : HealthTracker) (spent : FailureKind → Nat) : Prop :=
  ∀ kind, (used health kind).toNat = min (spent kind) u32Max

/-- There is room for what was spent. -/
def Within (budget : RetryBudget) (spent : FailureKind → Nat) : Prop :=
  ∀ kind, min (spent kind) u32Max ≤ (RetryBudget.max budget kind).toNat

def spend (spent : FailureKind → Nat) (kind : FailureKind) (count : Nat) : FailureKind → Nat := fun other =>
  if other = kind then spent other + count else spent other

theorem recordFailure_spec {health : HealthTracker} {spent : FailureKind → Nat} (counts : Counts health spent)
    (kind : FailureKind) :
    ((health.recordFailure kind).1 = true ↔ (RetryBudget.max health.budget kind).toNat < min (spent kind + 1) u32Max) ∧
      (health.recordFailure kind).2.budget = health.budget ∧ Counts (health.recordFailure kind).2 (spend spent kind 1) := by
  have next : ∀ value : UInt32, value.toNat = min (spent kind) u32Max →
      (saturatingSucc value).toNat = min (spent kind + 1) u32Max := by
    intro value same
    rw [toNat_saturatingSucc, same]
    omega
  have here := counts kind
  cases kind with
  | inference =>
    have counted := next health.inferenceUsed here
    refine ⟨?_, rfl, ?_⟩
    · simp only [HealthTracker.recordFailure, decide_eq_true_eq, UInt32.lt_iff_toNat_lt, counted, RetryBudget.max]
    · intro other
      cases other with
      | inference => exact counted
      | toolCall => exact counts .toolCall
  | toolCall =>
    have counted := next health.toolUsed here
    refine ⟨?_, rfl, ?_⟩
    · simp only [HealthTracker.recordFailure, decide_eq_true_eq, UInt32.lt_iff_toNat_lt, counted, RetryBudget.max]
    · intro other
      cases other with
      | inference => exact counts .inference
      | toolCall => exact counted

/-- What is spent already is not spent again. -/
theorem recordToolFailures_exhausted (clock : Clock) (failures : List ToolFailure) (reading : Nat) (kind : FailureKind)
    (agent : Agent) :
    (agent.recordToolFailures clock failures reading (some kind)).1 = some kind ∧
      (agent.recordToolFailures clock failures reading (some kind)).2.health = agent.health := by
  induction failures generalizing reading agent with
  | nil => exact ⟨rfl, rfl⟩
  | cons failure failures ih => exact ih (reading + 1) (agent.tried (clock reading) failure.error)

theorem recordToolFailures_spec {clock : Clock} {failures : List ToolFailure} {reading : Nat} {agent : Agent}
    {spent : FailureKind → Nat} (counts : Counts agent.health spent) (within : Within agent.health.budget spent) :
    (agent.recordToolFailures clock failures reading none).1 =
        (if (RetryBudget.max agent.health.budget .toolCall).toNat < min (spent .toolCall + failures.length) u32Max then
          some .toolCall else none) ∧
      (agent.recordToolFailures clock failures reading none).2.health.budget = agent.health.budget ∧
      ((agent.recordToolFailures clock failures reading none).1 = none →
        Counts (agent.recordToolFailures clock failures reading none).2.health (spend spent .toolCall failures.length)) := by
  induction failures generalizing reading agent spent with
  | nil =>
    refine ⟨?_, rfl, ?_⟩
    · rw [List.length_nil, Nat.add_zero, if_neg (Nat.not_lt.mpr (within .toolCall))]
      rfl
    · intro _ kind
      have same : spend spent .toolCall 0 kind = spent kind := by
        unfold spend
        split <;> simp
      rw [List.length_nil, same]
      exact counts kind
  | cons failure failures ih =>
    obtain ⟨exceeded_iff, budget, counted⟩ := recordFailure_spec counts .toolCall
    have untouched : (agent.tried (clock reading) failure.error).health = agent.health := rfl
    unfold Agent.recordToolFailures
    simp only [untouched]
    generalize agent.health.recordFailure .toolCall = recorded at exceeded_iff budget counted ⊢
    obtain ⟨exceeded, health⟩ := recorded
    simp only at exceeded_iff budget counted ⊢
    cases exceeded with
    | true =>
      have over_ := exceeded_iff.mp rfl
      obtain ⟨kept, same⟩ := recordToolFailures_exhausted clock failures (reading + 1) .toolCall
        { agent.tried (clock reading) failure.error with health }
      simp only [if_true]
      refine ⟨?_, ?_, ?_⟩
      · rw [kept, if_pos]
        rw [List.length_cons]
        omega
      · rw [same]
        exact budget
      · intro none
        rw [kept] at none
        cases none
    | false =>
      have room : ¬ (RetryBudget.max agent.health.budget .toolCall).toNat < min (spent .toolCall + 1) u32Max :=
        fun over_ => Bool.false_ne_true (exceeded_iff.mpr over_)
      have next : Within health.budget (spend spent .toolCall 1) := by
        intro kind
        rw [budget]
        cases kind with
        | inference => exact within .inference
        | toolCall => exact Nat.not_lt.mp room
      have again := @ih (reading + 1) { agent.tried (clock reading) failure.error with health } _ counted next
      simp only [Bool.false_eq_true, if_false] at again ⊢
      obtain ⟨kind, kept, left⟩ := again
      have count : spend spent .toolCall 1 .toolCall + failures.length = spent .toolCall + (failure :: failures).length := by
        rw [spend, if_pos rfl, List.length_cons]
        omega
      have both : spend (spend spent .toolCall 1) .toolCall failures.length =
          spend spent .toolCall (failure :: failures).length := by
        funext other
        unfold spend
        split
        · rw [List.length_cons]
          omega
        · rfl
      rw [count, budget] at kind
      rw [budget] at kept
      rw [both] at left
      exact ⟨kind, kept, left⟩

/-- One call: whether it returns an incident, of which kind, and what is counted if it does not. -/
theorem recordCycleFailure_spec {agent : Agent} {spent : FailureKind → Nat} (counts : Counts agent.health spent)
    (within : Within agent.health.budget spent) (call : CycleCall) :
    ((agent.recordCycleFailure call.1 call.2).1.map (·.failing.kind) =
        if (RetryBudget.max agent.health.budget (failureKind call.1)).toNat <
            min (spent (failureKind call.1) + (failureErrors call.1).length) u32Max then some (failureKind call.1) else none) ∧
      (agent.recordCycleFailure call.1 call.2).2.health.budget = agent.health.budget ∧
      ((agent.recordCycleFailure call.1 call.2).1 = none → Counts (agent.recordCycleFailure call.1 call.2).2.health
        (spend spent (failureKind call.1) (failureErrors call.1).length)) := by
  obtain ⟨failure, clock⟩ := call
  cases failure with
  | needsCorrection text =>
    obtain ⟨exceeded_iff, budget, counted⟩ := recordFailure_spec counts .inference
    unfold Agent.recordCycleFailure
    simp only [failureKind, failureErrors, List.length_singleton]
    change ((agent.tried (clock 0) text).health.recordFailure .inference).1 = true ↔ _ at exceeded_iff
    cases exceeded : ((agent.tried (clock 0) text).health.recordFailure .inference).1 with
    | true =>
      rw [if_pos rfl]
      exact ⟨(if_pos (exceeded_iff.mp exceeded)).symm, budget, nofun⟩
    | false =>
      rw [if_neg Bool.false_ne_true]
      exact ⟨(if_neg fun over_ => Bool.false_ne_true (exceeded.symm.trans (exceeded_iff.mpr over_))).symm, budget,
        fun _ => counted⟩
  | toolError failures =>
    obtain ⟨kind, budget, counted⟩ := @recordToolFailures_spec clock failures 0 agent spent counts within
    have length : (failureErrors (.toolError failures)).length = failures.length := List.length_map _
    rw [length]
    unfold Agent.recordCycleFailure
    simp only
    generalize agent.recordToolFailures clock failures 0 none = recorded at kind budget counted ⊢
    obtain ⟨exhausted, after⟩ := recorded
    simp only at kind budget counted
    cases exhausted with
    | none => exact ⟨kind, budget, fun _ => counted rfl⟩
    | some other => exact ⟨kind, budget, nofun⟩

theorem failuresOf_concat (kind : FailureKind) (before : List CycleCall) (call : CycleCall) :
    failuresOf kind (before ++ [call]) =
      if kind = failureKind call.1 then failuresOf kind before + (failureErrors call.1).length else failuresOf kind before := by
  unfold failuresOf
  rw [List.map_append, List.sum_append, List.map_singleton, List.sum_singleton]
  by_cases same : kind = failureKind call.1
  · rw [if_pos same, if_pos same.symm]
  · rw [if_neg same, if_neg (Ne.symm same), Nat.add_zero]

theorem feed_concat (agent : Agent) (before : List CycleCall) (call : CycleCall) :
    feed agent (before ++ [call]) = ((feed agent before).recordCycleFailure call.1 call.2).2 := by
  unfold feed
  rw [List.foldl_concat]

theorem silent_concat {agent : Agent} {before : List CycleCall} {call : CycleCall} :
    Silent agent (before ++ [call]) ↔ Silent agent before ∧ incidentAfter agent before call = none := by
  constructor
  · intro silent
    refine ⟨?_, silent before call [] rfl⟩
    intro earlier other rest whole
    apply silent earlier other (rest ++ [call])
    rw [whole, List.append_assoc, List.cons_append]
  · intro ⟨silent, last⟩ earlier other rest whole
    obtain rfl | ⟨final, more, rfl⟩ := rest.eq_nil_or_concat'
    · obtain ⟨same, here⟩ := List.append_inj' whole rfl
      cases here
      rw [← same]
      exact last
    · rw [← List.cons_append, ← List.append_assoc] at whole
      obtain ⟨same, -⟩ := List.append_inj' whole rfl
      exact silent earlier other final same

/-- What an agent has counted at the start of a cycle. -/
def Unspent (agent : Agent) : Prop := Counts agent.health fun _ => 0

theorem exceeds_concat {budget : RetryBudget} {kind : FailureKind} {before : List CycleCall} {call : CycleCall}
    (over_ : Exceeds budget kind before) : Exceeds budget kind (before ++ [call]) := by
  unfold Exceeds at over_ ⊢
  rw [failuresOf_concat]
  split <;> omega

/-- After calls within the budget, the next one returns an incident if and only if it exceeds. -/
theorem incidentAfter_kind {agent : Agent} {before : List CycleCall} (call : CycleCall)
    (budget : (feed agent before).health.budget = agent.health.budget)
    (counts : Counts (feed agent before).health (failuresOf · before))
    (within : ∀ kind, ¬ Exceeds agent.health.budget kind before) (kind : FailureKind) :
    (incidentAfter agent before call).map (·.failing.kind) = some kind ↔ Exceeds agent.health.budget kind (before ++ [call]) := by
  have room : Within (feed agent before).health.budget (failuresOf · before) := by
    intro kind
    rw [budget]
    exact Nat.not_lt.mp (within kind)
  have returned := (recordCycleFailure_spec counts room call).1
  unfold incidentAfter Exceeds
  rw [returned, budget, failuresOf_concat]
  by_cases same : kind = failureKind call.1
  · subst same
    simp
  · have below : ¬ (RetryBudget.max agent.health.budget kind).toNat < min (failuresOf kind before) u32Max := within kind
    rw [if_neg same, iff_false_right below]
    split
    · exact fun other => same (Option.some.inj other).symm
    · exact nofun

/-- The calls are silent as long as no budget is exceeded, and until then every failure is counted. -/
theorem silent_iff {agent : Agent} (fresh : Unspent agent) (calls : List CycleCall) :
    (Silent agent calls ↔ ∀ kind, ¬ Exceeds agent.health.budget kind calls) ∧
      (Silent agent calls → (feed agent calls).health.budget = agent.health.budget ∧
        Counts (feed agent calls).health (failuresOf · calls)) := by
  induction calls using List.reverseRecOn with
  | nil =>
    refine ⟨⟨?_, ?_⟩, fun _ => ⟨rfl, fresh⟩⟩
    · intro _ kind over_
      exact absurd over_ (by simp [Exceeds, failuresOf])
    · intro _ earlier other rest whole
      exact absurd whole (by simp)
  | append_singleton before call ih =>
    obtain ⟨silent, counted⟩ := ih
    have last : Silent agent before → (incidentAfter agent before call = none ↔
        ∀ kind, ¬ Exceeds agent.health.budget kind (before ++ [call])) := by
      intro quiet
      obtain ⟨budget, counts⟩ := counted quiet
      have kind_iff := incidentAfter_kind call budget counts (silent.mp quiet)
      constructor
      · intro none kind over_
        have there := (kind_iff kind).mpr over_
        rw [none] at there
        cases there
      · intro within
        cases returned : incidentAfter agent before call with
        | none => rfl
        | some incident => exact (within _ ((kind_iff _).mp (by rw [returned]; rfl))).elim
    refine ⟨?_, ?_⟩
    · rw [silent_concat]
      constructor
      · exact fun ⟨quiet, ended⟩ => (last quiet).mp ended
      · intro within
        have quiet := silent.mpr fun kind over_ => within kind (exceeds_concat over_)
        exact ⟨quiet, (last quiet).mpr within⟩
    · intro both
      obtain ⟨quiet, none⟩ := silent_concat.mp both
      obtain ⟨budget, counts⟩ := counted quiet
      have room : Within (feed agent before).health.budget (failuresOf · before) := by
        intro kind
        rw [budget]
        exact Nat.not_lt.mp (silent.mp quiet kind)
      obtain ⟨-, kept, left⟩ := recordCycleFailure_spec counts room call
      rw [feed_concat]
      refine ⟨kept.trans budget, ?_⟩
      intro kind
      change _ = min (failuresOf kind (before ++ [call])) u32Max
      rw [failuresOf_concat]
      exact left none kind

theorem unspent_beginCycle (agent : Agent) : Unspent agent.beginCycle.1 := by
  intro kind
  cases kind with
  | inference => rfl
  | toolCall => rfl

end Counters

/-- In a cycle, the first call to return an incident is the first that exceeds a budget, the
incident names that budget, and until then the trail lists every failure. -/
theorem cycle_budget (agent : Agent) (before : List CycleCall) (call : CycleCall) :
    ((∃ incident, FirstIncident agent.beginCycle.1 before call incident) ↔
        (∀ kind, ¬ Exceeds agent.health.budget kind before) ∧ ∃ kind, Exceeds agent.health.budget kind (before ++ [call])) ∧
      (∀ incident, FirstIncident agent.beginCycle.1 before call incident →
        Exceeds agent.health.budget incident.failing.kind (before ++ [call]) ∧
          Lists incident.retryTrail ((before ++ [call]).flatMap fun call => failureErrors call.1)) ∧
      Lists (feed agent.beginCycle.1 before).retryTrail (before.flatMap fun call => failureErrors call.1) := by
  have fresh := unspent_beginCycle agent
  have listed : ∀ calls, Lists (feed agent.beginCycle.1 calls).retryTrail (calls.flatMap fun call => failureErrors call.1) :=
    fun calls => Lists.feed ⟨rfl, rfl⟩ calls
  have kind_iff : Silent agent.beginCycle.1 before → ∀ kind,
      (incidentAfter agent.beginCycle.1 before call).map (·.failing.kind) = some kind ↔
        Exceeds agent.health.budget kind (before ++ [call]) := by
    intro quiet
    obtain ⟨budget, counts⟩ := (silent_iff fresh before).2 quiet
    exact incidentAfter_kind call budget counts ((silent_iff fresh before).1.mp quiet)
  refine ⟨⟨?_, ?_⟩, ?_, listed before⟩
  · intro ⟨incident, quiet, returned⟩
    exact ⟨(silent_iff fresh before).1.mp quiet, _, (kind_iff quiet _).mp (by rw [returned]; rfl)⟩
  · intro ⟨within, kind, over_⟩
    have quiet := (silent_iff fresh before).1.mpr within
    obtain ⟨incident, returned, -⟩ := Option.map_eq_some_iff.mp ((kind_iff quiet kind).mpr over_)
    exact ⟨incident, quiet, returned⟩
  · intro incident ⟨quiet, returned⟩
    refine ⟨(kind_iff quiet _).mp (by rw [returned]; rfl), ?_⟩
    rw [retryTrail_incident returned, ← feed_concat]
    exact listed _

/-- A budget of the greatest `u32` is never exceeded, however many failures there are. -/
theorem greatest_budget_unspent :
    ¬ ∀ (agent : Agent) (before : List CycleCall) (call : CycleCall),
      (∃ incident, FirstIncident agent.beginCycle.1 before call incident) ↔
        (∀ kind, ¬ (RetryBudget.max agent.health.budget kind).toNat < failuresOf kind before) ∧
          ∃ kind, (RetryBudget.max agent.health.budget kind).toNat < failuresOf kind (before ++ [call]) := by
  intro exact_
  let call : CycleCall := (.needsCorrection "read: file notes/a.md not found", fun _ => ⟨0⟩)
  let agent : Agent := ⟨.new "" ⟨0⟩ none, [], ⟨0⟩, ⟨⟨.ofNat u32Max, 3⟩, .healthy ⟨0⟩, 0, 0⟩, 0, [], .buildSeed⟩
  have count : ∀ number, failuresOf .inference (List.replicate number call) = number := by
    intro number
    unfold failuresOf
    rw [List.map_replicate, List.sum_replicate_nat]
    exact Nat.mul_one number
  have none_ : ∀ number, failuresOf .toolCall (List.replicate number call) = 0 := by
    intro number
    unfold failuresOf
    rw [List.map_replicate, List.sum_replicate_nat]
    exact Nat.mul_zero number
  have all : List.replicate u32Max call ++ [call] = List.replicate (u32Max + 1) call := List.replicate_succ'.symm
  have allowed : (RetryBudget.max agent.health.budget .inference).toNat = u32Max := rfl
  obtain ⟨incident, -, returned⟩ := (exact_ agent (List.replicate u32Max call) call).mpr (by
    refine ⟨?_, .inference, ?_⟩
    · intro kind
      cases kind with
      | inference =>
        rw [count, allowed]
        exact Nat.lt_irrefl _
      | toolCall =>
        rw [none_]
        exact Nat.not_lt_zero _
    · rw [all, count, allowed]
      exact Nat.lt_succ_self _)
  have silent : Silent agent.beginCycle.1 (List.replicate u32Max call ++ [call]) := by
    apply (silent_iff (unspent_beginCycle agent) _).1.mpr
    intro kind
    unfold Exceeds
    cases kind with
    | inference =>
      change ¬ (RetryBudget.max agent.health.budget .inference).toNat < _
      rw [allowed]
      omega
    | toolCall =>
      rw [all, none_, Nat.zero_min]
      exact Nat.not_lt_zero _
  rw [(silent_concat.mp silent).2] at returned
  cases returned

end Coral.Proofs

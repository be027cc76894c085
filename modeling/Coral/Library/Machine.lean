import Mathlib.Data.List.Basic
import Mathlib.Data.List.Induction

/-! Deterministic machines that may refuse an event. A run is a list of events;
its outputs are collected in order. The rules below are the only inductions over
runs that a development needs: one for invariants, one for properties of the
whole history, one for simulations between two machines. -/

namespace Coral.Library

universe u v w

structure Machine (σ : Type u) (ε : Type v) (ο : Type w) where
  step : σ → ε → Option (σ × List ο)

namespace Machine

variable {σ : Type u} {ε : Type v} {ο : Type w} (machine : Machine σ ε ο)

def run (state : σ) : List ε → Option (σ × List ο)
  | [] => some (state, [])
  | event :: events => do
    let (middle, first) ← machine.step state event
    let (final, rest) ← run middle events
    return (final, first ++ rest)

@[simp] theorem run_nil (state : σ) : machine.run state [] = some (state, []) := rfl

theorem run_cons {state final : σ} {event : ε} {events : List ε} {outputs : List ο} :
    machine.run state (event :: events) = some (final, outputs) ↔
      ∃ middle first rest, machine.step state event = some (middle, first) ∧
        machine.run middle events = some (final, rest) ∧ outputs = first ++ rest := by
  simp only [run, Option.bind_eq_bind, Option.bind_eq_some_iff, Option.pure_def, Option.some.injEq,
    Prod.mk.injEq, Prod.exists]
  constructor
  · rintro ⟨middle, first, stepped, final, rest, ran, rfl, rfl⟩
    exact ⟨middle, first, rest, stepped, ran, rfl⟩
  · rintro ⟨middle, first, rest, stepped, ran, rfl⟩
    exact ⟨middle, first, stepped, final, rest, ran, rfl, rfl⟩

theorem run_append {state final : σ} {before after : List ε} {outputs : List ο} :
    machine.run state (before ++ after) = some (final, outputs) ↔
      ∃ middle first rest, machine.run state before = some (middle, first) ∧
        machine.run middle after = some (final, rest) ∧ outputs = first ++ rest := by
  induction before generalizing state outputs with
  | nil => simp
  | cons event before ih =>
    simp only [List.cons_append, run_cons, ih]
    constructor
    · rintro ⟨next, first, rest, stepped, ⟨middle, more, last, ran, finished, rfl⟩, rfl⟩
      exact ⟨middle, first ++ more, last, ⟨next, first, more, stepped, ran, rfl⟩, finished, by simp⟩
    · rintro ⟨middle, outputs, last, ⟨next, first, more, stepped, ran, rfl⟩, finished, rfl⟩
      exact ⟨next, first, more ++ last, stepped, ⟨middle, more, last, ran, finished, rfl⟩, by simp⟩

theorem run_snoc {state final : σ} {event : ε} {events : List ε} {outputs : List ο} :
    machine.run state (events ++ [event]) = some (final, outputs) ↔
      ∃ middle first rest, machine.run state events = some (middle, first) ∧
        machine.step middle event = some (final, rest) ∧ outputs = first ++ rest := by
  simp only [run_append, run_cons, run_nil, Option.some.injEq, Prod.mk.injEq]
  constructor
  · rintro ⟨middle, first, rest, ran, ⟨_, out, _, stepped, ⟨rfl, rfl⟩, rfl⟩, rfl⟩
    exact ⟨middle, first, out, ran, stepped, by simp⟩
  · rintro ⟨middle, first, rest, ran, stepped, rfl⟩
    exact ⟨middle, first, rest, ran, ⟨final, rest, [], stepped, ⟨rfl, rfl⟩, by simp⟩, rfl⟩

/-- A property of the events so far, the state they lead to and the outputs they
caused holds of every run when one more event keeps it. -/
theorem history_invariant {start : σ} (holds : List ε → σ → List ο → Prop) (initial : holds [] start [])
    (preserved : ∀ events state outputs event next more, holds events state outputs →
      machine.step state event = some (next, more) → holds (events ++ [event]) next (outputs ++ more))
    {events : List ε} {state : σ} {outputs : List ο}
    (ran : machine.run start events = some (state, outputs)) : holds events state outputs := by
  induction events using List.reverseRecOn generalizing state outputs with
  | nil =>
    obtain ⟨rfl, rfl⟩ : start = state ∧ [] = outputs := by simpa using ran
    exact initial
  | append_singleton events event ih =>
    obtain ⟨middle, first, rest, earlier, stepped, rfl⟩ := machine.run_snoc.mp ran
    exact preserved events middle first event state rest (ih earlier) stepped

theorem run_invariant {start : σ} (holds : σ → Prop) (initial : holds start)
    (preserved : ∀ state event next outputs, holds state →
      machine.step state event = some (next, outputs) → holds next)
    {events : List ε} {state : σ} {outputs : List ο}
    (ran : machine.run start events = some (state, outputs)) : holds state :=
  machine.history_invariant (fun _ state _ => holds state) initial
    (fun _ state _ event next more => preserved state event next more) ran

/-- A history that a specification allows, from one of its states to another. -/
inductive Explained {α : Type u} (allows : α → ε → ο → α → Prop) : α → List (ε × ο) → α → Prop where
  | nil (state : α) : Explained allows state [] state
  | cons {before middle after : α} {event : ε} {output : ο} {rest : List (ε × ο)}
      (allowed : allows before event output middle) (explained : Explained allows middle rest after) :
      Explained allows before ((event, output) :: rest) after

/-- A machine that answers each event once, as a specification allows, has its runs explained by it. -/
theorem run_explained {α : Type u} {allows : α → ε → ο → α → Prop} (abstract : σ → α)
    (each : ∀ state event next outputs, machine.step state event = some (next, outputs) →
      ∃ output, outputs = [output] ∧ allows (abstract state) event output (abstract next))
    {start final : σ} {events : List ε} {outputs : List ο} (ran : machine.run start events = some (final, outputs)) :
    Explained allows (abstract start) (events.zip outputs) (abstract final) := by
  induction events generalizing start outputs with
  | nil =>
    obtain ⟨rfl, rfl⟩ : start = final ∧ [] = outputs := by simpa using ran
    exact .nil _
  | cons event events ih =>
    obtain ⟨middle, first, rest, stepped, continued, rfl⟩ := machine.run_cons.mp ran
    obtain ⟨output, rfl, allowed⟩ := each start event middle first stepped
    exact .cons allowed (ih continued)

/-- What steps cost is paid from what the states have left, so a run costs no more than that. -/
theorem run_budget {start final : σ} (valid : σ → Prop) (left : σ → Nat) (cost : List ε → List ο → Nat)
    (free : cost [] [] = 0)
    (additive : ∀ events outputs event more, cost (events ++ [event]) (outputs ++ more) =
      cost events outputs + cost [event] more)
    (initial : valid start)
    (paid : ∀ state event next more, valid state → machine.step state event = some (next, more) →
      valid next ∧ cost [event] more + left next ≤ left state)
    {events : List ε} {outputs : List ο} (ran : machine.run start events = some (final, outputs)) :
    cost events outputs + left final ≤ left start := by
  refine (machine.history_invariant
    (fun events final outputs => valid final ∧ cost events outputs + left final ≤ left start) ⟨initial, by rw [free]; omega⟩ ?_ ran).2
  intro events state outputs event next more holds stepped
  obtain ⟨still, pays⟩ := paid state event next more holds.1 stepped
  refine ⟨still, ?_⟩
  rw [additive]
  have before := holds.2
  omega

/-- Every step of a run starts in a state, and with an event, that meets the condition. -/
def Along (condition : σ → ε → Prop) : σ → List ε → Prop
  | _, [] => True
  | state, event :: events => condition state event ∧
    match machine.step state event with
    | some (next, _) => Along condition next events
    | none => True

instance Along.decidable (condition : σ → ε → Prop) [∀ state event, Decidable (condition state event)] :
    ∀ (state : σ) (events : List ε), Decidable (machine.Along condition state events)
  | _, [] => inferInstanceAs (Decidable True)
  | state, event :: events =>
    have : Decidable (match machine.step state event with
        | some (next, _) => machine.Along condition next events
        | none => True) :=
      match machine.step state event with
      | some (next, _) => Along.decidable condition next events
      | none => inferInstanceAs (Decidable True)
    inferInstanceAs (Decidable (_ ∧ _))

theorem along_cons {condition : σ → ε → Prop} {state next : σ} {event : ε} {events : List ε} {outputs : List ο}
    (stepped : machine.step state event = some (next, outputs)) :
    machine.Along condition state (event :: events) ↔ condition state event ∧ machine.Along condition next events := by
  simp only [Along, stepped]

/-- A run goes along a condition when each of its events meets it where the events before lead. -/
theorem along_iff_splits {condition : σ → ε → Prop} {start final : σ} {events : List ε} {outputs : List ο}
    (ran : machine.run start events = some (final, outputs)) :
    machine.Along condition start events ↔ ∀ earlier event later state sent, events = earlier ++ event :: later →
      machine.run start earlier = some (state, sent) → condition state event := by
  induction events generalizing start outputs with
  | nil =>
    refine iff_of_true trivial ?_
    rintro (_ | ⟨first, earlier⟩) event later state sent split - <;> cases split
  | cons head events ih =>
    obtain ⟨middle, first, rest, stepped, continued, -⟩ := machine.run_cons.mp ran
    rw [machine.along_cons stepped, ih continued]
    constructor
    · rintro ⟨here, there⟩ (_ | ⟨other, earlier⟩) event later state sent split reached
      · cases split
        cases reached
        exact here
      · cases split
        obtain ⟨next, some, more, taken, reached, -⟩ := machine.run_cons.mp reached
        rw [stepped] at taken
        cases taken
        exact there earlier event later state more rfl reached
    · intro everywhere
      refine ⟨everywhere [] head events start [] rfl rfl, ?_⟩
      rintro earlier event later state sent rfl reached
      exact everywhere (head :: earlier) event later state (first ++ sent) rfl
        (machine.run_cons.mpr ⟨middle, first, sent, stepped, reached, rfl⟩)

theorem along_of_forall {condition : σ → ε → Prop} (holds : ∀ state event, condition state event) (start : σ)
    (events : List ε) : machine.Along condition start events := by
  induction events generalizing start with
  | nil => trivial
  | cons event events ih =>
    refine ⟨holds start event, ?_⟩
    split
    · exact ih _
    · trivial

theorem along_of_mem {condition : σ → ε → Prop} {events : List ε}
    (holds : ∀ event ∈ events, ∀ state, condition state event) (start : σ) : machine.Along condition start events := by
  induction events generalizing start with
  | nil => trivial
  | cons event events ih =>
    rw [List.forall_mem_cons] at holds
    refine ⟨holds.1 start, ?_⟩
    split
    · exact ih holds.2 _
    · trivial

theorem along_and {condition other : σ → ε → Prop} {start : σ} {events : List ε} (one : machine.Along condition start events)
    (two : machine.Along other start events) :
    machine.Along (fun state event => condition state event ∧ other state event) start events := by
  induction events generalizing start with
  | nil => trivial
  | cons event events ih =>
    obtain ⟨met, later⟩ := one
    obtain ⟨also, further⟩ := two
    refine ⟨⟨met, also⟩, ?_⟩
    split
    · rename_i next outputs stepped
      rw [stepped] at later further
      exact ih later further
    · trivial

/-- What a step cannot bring about was there all along. -/
theorem along_of_final (holds : σ → Prop)
    (back : ∀ state event next outputs, machine.step state event = some (next, outputs) → holds next → holds state)
    {start final : σ} {events : List ε} {outputs : List ο} (ran : machine.run start events = some (final, outputs))
    (last : holds final) : holds start ∧ machine.Along (fun state _ => holds state) start events := by
  induction events generalizing start outputs with
  | nil =>
    obtain ⟨rfl, -⟩ : start = final ∧ [] = outputs := by simpa using ran
    exact ⟨last, trivial⟩
  | cons event events ih =>
    obtain ⟨middle, first, rest, stepped, continued, rfl⟩ := machine.run_cons.mp ran
    obtain ⟨there, along⟩ := ih continued
    have here := back start event middle first stepped there
    exact ⟨here, (machine.along_cons stepped).mpr ⟨here, along⟩⟩

theorem along_mono {condition other : σ → ε → Prop} (enough : ∀ state event, condition state event → other state event)
    {start : σ} {events : List ε} (along : machine.Along condition start events) : machine.Along other start events := by
  induction events generalizing start with
  | nil => trivial
  | cons event events ih =>
    obtain ⟨met, later⟩ := along
    refine ⟨enough start event met, ?_⟩
    split
    · rename_i next outputs stepped
      rw [stepped] at later
      exact ih later
    · trivial

/-- Two conditions that agree on the steps that meet a third. -/
theorem along_congr {given condition other : σ → ε → Prop}
    (agree : ∀ state event, given state event → (condition state event ↔ other state event)) {start : σ}
    {events : List ε} (along : machine.Along given start events) :
    machine.Along condition start events ↔ machine.Along other start events := by
  induction events generalizing start with
  | nil => exact Iff.rfl
  | cons event events ih =>
    obtain ⟨met, later⟩ := along
    unfold Along
    refine and_congr (agree start event met) ?_
    split
    · rename_i next outputs stepped
      rw [stepped] at later
      exact ih later
    · exact Iff.rfl

/-- An invariant that only steps under a condition keep. -/
theorem run_invariant_along (holds : σ → Prop) {condition : σ → ε → Prop} {start final : σ} {events : List ε}
    {outputs : List ο} (initial : holds start)
    (preserved : ∀ state event next outputs, holds state → condition state event →
      machine.step state event = some (next, outputs) → holds next)
    (along : machine.Along condition start events) (ran : machine.run start events = some (final, outputs)) :
    holds final := by
  induction events generalizing start outputs with
  | nil =>
    obtain ⟨rfl, -⟩ : start = final ∧ [] = outputs := by simpa using ran
    exact initial
  | cons event events ih =>
    obtain ⟨middle, first, rest, stepped, continued, rfl⟩ := machine.run_cons.mp ran
    obtain ⟨met, later⟩ := (machine.along_cons stepped).mp along
    exact ih (preserved start event middle first initial met stepped) later continued

/-- Every output of a run has a property exactly when every step of it meets the condition
under which that step's outputs have it. -/
theorem run_outputs_iff {start final : σ} {holds : ο → Prop} {condition : σ → ε → Prop}
    (each : ∀ state event next outputs, machine.step state event = some (next, outputs) →
      ((∀ output ∈ outputs, holds output) ↔ condition state event))
    {events : List ε} {outputs : List ο} (ran : machine.run start events = some (final, outputs)) :
    (∀ output ∈ outputs, holds output) ↔ machine.Along condition start events := by
  induction events generalizing start outputs with
  | nil =>
    obtain ⟨rfl, rfl⟩ : start = final ∧ [] = outputs := by simpa using ran
    simp [Along]
  | cons event events ih =>
    obtain ⟨middle, first, rest, stepped, continued, rfl⟩ := machine.run_cons.mp ran
    rw [List.forall_mem_append, each start event middle first stepped, ih continued, machine.along_cons stepped]

/-- The outputs of a run are those of its steps. -/
theorem along_of_run {start final : σ} {given : ε → Prop} {holds : ο → Prop} {events : List ε} {outputs : List ο}
    (ran : machine.run start events = some (final, outputs)) (events_given : ∀ event ∈ events, given event)
    (outputs_hold : ∀ output ∈ outputs, holds output) :
    machine.Along (fun state event => given event ∧ ∀ next more, machine.step state event = some (next, more) →
      ∀ output ∈ more, holds output) start events := by
  induction events generalizing start outputs with
  | nil => trivial
  | cons event events ih =>
    obtain ⟨middle, first, rest, stepped, continued, rfl⟩ := machine.run_cons.mp ran
    rw [List.forall_mem_append] at outputs_hold
    rw [List.forall_mem_cons] at events_given
    refine (machine.along_cons stepped).mpr ⟨⟨events_given.1, ?_⟩, ih continued events_given.2 outputs_hold.2⟩
    intro next more again
    obtain ⟨rfl, rfl⟩ := Prod.mk.inj (Option.some.inj (stepped.symm.trans again))
    exact outputs_hold.1

end Machine

/-- Lockstep simulation up to a renaming of events: each permitted step of the first
machine is matched by the renamed event of the second, with outputs that `observe`
cannot tell apart. -/
theorem Machine.simulation {σ σ' : Type u} {ε ε' : Type v} {ο ο' ω : Type w}
    (first : Machine σ ε ο) (second : Machine σ' ε' ο') (rename : ε → ε')
    (observe : ο → Option ω) (observe' : ο' → Option ω) (related : σ → σ' → Prop) (permitted : σ → ε → Prop)
    (matched : ∀ state state' event next outputs, related state state' → permitted state event →
      first.step state event = some (next, outputs) →
      ∃ next' outputs', second.step state' (rename event) = some (next', outputs') ∧
        related next next' ∧ outputs.filterMap observe = outputs'.filterMap observe')
    {state : σ} {state' : σ'} {events : List ε} {final : σ} {outputs : List ο} (start : related state state')
    (allowed : first.Along permitted state events) (ran : first.run state events = some (final, outputs)) :
    ∃ final' outputs', second.run state' (events.map rename) = some (final', outputs') ∧
      related final final' ∧ outputs.filterMap observe = outputs'.filterMap observe' := by
  induction events generalizing state state' outputs with
  | nil =>
    obtain ⟨rfl, rfl⟩ : state = final ∧ [] = outputs := by simpa using ran
    exact ⟨state', [], rfl, start, rfl⟩
  | cons event events ih =>
    obtain ⟨middle, out, rest, stepped, continued, rfl⟩ := first.run_cons.mp ran
    obtain ⟨met, later⟩ := (first.along_cons stepped).mp allowed
    obtain ⟨middle', out', stepped', start', same⟩ := matched state state' event middle out start met stepped
    obtain ⟨final', rest', ran', ended, agree⟩ := ih start' later continued
    exact ⟨final', out' ++ rest', second.run_cons.mpr ⟨middle', out', rest', stepped', ran', rfl⟩, ended, by
      rw [List.filterMap_append, List.filterMap_append, same, agree]⟩

end Coral.Library

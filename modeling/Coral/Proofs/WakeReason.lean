import Coral.Proofs.StoreCalls
import Coral.Proofs.TriggerOrder
import Coral.Temporal.FileActivities

/-! What a cycle is told of the reason it runs. A mandate patch opens the gate and keeps
the scheduled wake away, but it does not reach the seed. -/

namespace Coral.Temporal.Proofs
open Coral.Library Coral.Temporal

/-- The wake of an idle timer, with nothing queued. -/
def IdleWake (run : Run) (event : Event) : Prop := event = .timerFired ∧ run.state.signalled = false

/-- A cycle starts from a reason, and from a scheduled wake when there is no other. -/
def Reasoned (run : Run) (event : Event) (seed : Seed) : Prop :=
  seed.triggers ≠ [] ∧ (.scheduledWake ∈ seed.triggers ↔ IdleWake run event)

/-- The buckets hold something besides mandate patches, if they hold anything; and nobody has
signalled a scheduled wake. -/
def Explained (s : AgentWorkflow) : Prop :=
  (s.pendingMandatePatches ≠ [] → s.pendingTriggers ≠ [] ∨ s.pendingHumanOps ≠ []) ∧
    .scheduledWake ∉ s.pendingTriggers

section Build

variable {σ : Type} [AgentStorage σ]

theorem buildSeed_triggers {fs : AgentFs} {triggers : List Trigger} {cfg : Mandate} {storage : σ} {seed : Seed}
    (built : buildSeed fs triggers cfg storage = .ok seed) : seed.triggers = triggers := by
  unfold buildSeed at built
  obtain ⟨window, -, built⟩ := Coral.Proofs.bind_ok built
  obtain ⟨pinned, -, built⟩ := Coral.Proofs.bind_ok built
  obtain ⟨outputs, -, built⟩ := Coral.Proofs.bind_ok built
  cases built
  rfl

/-- The seed has the triggers and the human operations, in this order, and nothing of the patches. -/
theorem buildSeedImpl_triggers {mandate : Mandate} {fsHandle : FsHandle} {triggers : List Trigger}
    {humanOps : List HumanOp} {patches : List MandatePatch} {clock : Clock} {storage after : σ} {seed : Seed}
    (built : buildSeedImpl mandate fsHandle triggers humanOps patches clock storage = (.ok seed, after)) :
    seed.triggers = seedTriggers triggers humanOps := by
  unfold buildSeedImpl at built
  split at built
  · cases built
  · exact buildSeed_triggers (Prod.mk.inj built).1

end Build

/-- The triggers of the bundle: those that are queued, or a scheduled wake when nothing is. -/
theorem synthesize_triggers {s : AgentWorkflow} (unasked : s.retirementRequest = none) :
    (synthesizeScheduledWake (drainBuckets s).1).triggers =
      if s.signalled then s.pendingTriggers else [.scheduledWake] := by
  unfold synthesizeScheduledWake AgentWorkflow.signalled drainBuckets
  dsimp only
  rw [unasked]
  cases s.pendingTriggers <;> cases s.pendingHumanOps <;> cases s.pendingMandatePatches <;> rfl

theorem signalled_iff {s : AgentWorkflow} (unasked : s.retirementRequest = none) :
    s.signalled = true ↔ s.pendingTriggers ≠ [] ∨ s.pendingHumanOps ≠ [] ∨ s.pendingMandatePatches ≠ [] := by
  unfold AgentWorkflow.signalled
  rw [unasked]
  simp only [Bool.or_eq_true, Bool.not_eq_true', List.isEmpty_eq_false_iff, Option.isSome_none, Bool.false_eq_true,
    or_false, or_assoc]

theorem seedTriggers_eq_nil {triggers : List Trigger} {humanOps : List HumanOp} :
    seedTriggers triggers humanOps = [] ↔ triggers = [] ∧ humanOps = [] := by
  unfold seedTriggers
  rw [List.append_eq_nil_iff, List.map_eq_nil_iff]

theorem mem_seedTriggers {triggers : List Trigger} {humanOps : List HumanOp} :
    .scheduledWake ∈ seedTriggers triggers humanOps ↔ .scheduledWake ∈ triggers := by
  unfold seedTriggers
  rw [List.mem_append, or_iff_left]
  intro member
  obtain ⟨op, -, impossible⟩ := List.mem_map.mp member
  cases impossible

/-- A cycle is given its reason exactly when the buckets explain the wake. -/
theorem reasoned_iff {σ : Type} [AgentStorage σ] {run next : Run} {event : Event} {effects : List Effect}
    {mandate : Mandate} {fsHandle : FsHandle} {triggers : List Trigger} {humanOps : List HumanOp}
    {patches : List MandatePatch} {clock : Clock} {storage after : σ} {seed : Seed}
    (stepped : workflow.step run event = some (next, effects))
    (asked : .activity (.buildSeed mandate fsHandle triggers humanOps patches) ∈ effects)
    (built : buildSeedImpl mandate fsHandle triggers humanOps patches clock storage = (.ok seed, after)) :
    Reasoned run event seed ↔ Explained run.state := by
  obtain ⟨opened, -, reason⟩ := step_seeded stepped asked rfl
  rw [(Prod.mk.inj opened).2] at asked
  obtain ⟨unasked, operated, triggered⟩ := leaveGate_asks asked
  rw [synthesize_triggers unasked] at triggered
  have signals := signalled_iff unasked
  unfold Reasoned Explained IdleWake
  rw [buildSeedImpl_triggers built, mem_seedTriggers, ne_eq, seedTriggers_eq_nil, triggered, operated]
  cases quiet : run.state.signalled with
  | false =>
    have fired : event = .timerFired := by
      rcases reason with ⟨-, signalled⟩ | fired
      · rw [quiet] at signalled; cases signalled
      · exact fired
    have empty := mt signals.mpr (by rw [quiet]; exact Bool.false_ne_true)
    simp only [not_or, not_not] at empty
    simp [fired, empty]
  | true =>
    have held := signals.mp quiet
    simp only [if_true, Bool.true_eq_false, and_false, iff_false]
    refine and_congr_left fun _ => ?_
    constructor
    · intro some _
      by_contra none
      simp only [not_or, not_not] at none
      exact some none
    · intro explained ⟨untriggered, unoperated⟩
      rcases held with triggers | ops | patches
      · exact triggers untriggered
      · exact ops unoperated
      · rcases explained patches with triggers | ops
        · exact triggers untriggered
        · exact ops unoperated

private theorem seed_built (triggers : List Trigger) (patches : List MandatePatch) : ∃ seed after,
    buildSeedImpl (.new "" ⟨0⟩ none) ⟨""⟩ triggers [] patches (fun _ => ⟨0⟩) (⟨∅⟩ : MemoryStorage) = (.ok seed, after) :=
  ⟨_, _, rfl⟩

private def root : AgentInput := .newForTest ⟨⟨0⟩⟩ ⟨⟨1⟩⟩ "root"

/-- An operator's patch wakes a new agent, whose seed then has no trigger. -/
theorem patch_unexplained : ∃ run past next effects seed after,
    lifetime "root" root [.signal (.mandateUpdate ⟨.null⟩)] = some (run, past) ∧
    workflow.step run .woken = some (next, effects) ∧
    .activity (.buildSeed root.mandate root.fsHandle [] [] [⟨.null⟩]) ∈ effects ∧
    buildSeedImpl root.mandate root.fsHandle [] [] [⟨.null⟩] (fun _ => ⟨0⟩) (⟨∅⟩ : MemoryStorage) = (.ok seed, after) ∧
    seed.triggers = [] ∧ ¬ Reasoned run .woken seed := by
  obtain ⟨seed, after, built⟩ := seed_built [] [⟨.null⟩]
  have empty : seed.triggers = [] := buildSeedImpl_triggers built
  refine ⟨_, _, _, _, seed, after, rfl, rfl, List.mem_cons_of_mem _ List.mem_cons_self, built, empty, ?_⟩
  intro reasoned
  exact reasoned.1 empty

/-- The first wake of a new agent. -/
theorem reasoned_iff_started : ∃ run past next effects seed after,
    lifetime "root" root [] = some (run, past) ∧ workflow.step run .timerFired = some (next, effects) ∧
    .activity (.buildSeed root.mandate root.fsHandle [.scheduledWake] [] []) ∈ effects ∧
    buildSeedImpl root.mandate root.fsHandle [.scheduledWake] [] [] (fun _ => ⟨0⟩) (⟨∅⟩ : MemoryStorage) =
      (.ok seed, after) ∧ Reasoned run .timerFired seed := by
  obtain ⟨seed, after, built⟩ := seed_built [.scheduledWake] []
  have asks : Effect.activity (.buildSeed root.mandate root.fsHandle [.scheduledWake] [] []) ∈
      (begin "root" root).1.leaveGate.2 := List.mem_cons_of_mem _ List.mem_cons_self
  refine ⟨_, _, _, _, seed, after, rfl, rfl, asks, built, (reasoned_iff rfl asks built).mpr ⟨?_, ?_⟩⟩
  · intro impossible
    exact (impossible rfl).elim
  · intro member
    cases member

end Coral.Temporal.Proofs

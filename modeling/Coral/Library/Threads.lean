import Coral.Library.Machine
import Mathlib.Data.List.Nodup

/-! Threads over a state they share, one step of one thread at a time. What a thread knows of
the shared state has to survive the steps of the others. -/

namespace Coral.Library

universe u v w

structure Threads (σ : Type u) (θ : Type v) where
  step : θ → σ → Option (θ × σ)

namespace Threads

variable {σ : Type u} {θ : Type v} {ι : Type w} (threads : Threads σ θ)

/-- An event is the place of the thread whose turn it is. -/
def machine : Machine (List θ × σ) Nat Unit :=
  ⟨fun state turn =>
    state.1[turn]?.bind fun thread =>
      (threads.step thread state.2).map fun next => ((state.1.set turn next.1, next.2), [])⟩

theorem machine_step {all : List θ} {shared : σ} {turn : Nat} {result : List θ × σ} {outputs : List Unit}
    (stepped : threads.machine.step (all, shared) turn = some (result, outputs)) :
    ∃ thread next, all[turn]? = some thread ∧ threads.step thread shared = some (next, result.2) ∧
      result.1 = all.set turn next := by
  obtain ⟨thread, here, stepped⟩ := Option.bind_eq_some_iff.mp stepped
  obtain ⟨⟨next, after⟩, moved, same⟩ := Option.map_eq_some_iff.mp stepped
  cases same
  exact ⟨thread, next, here, moved, rfl⟩

/-- The thread whose turn it is meets the condition. -/
def Turn (condition : θ → σ → Prop) (state : List θ × σ) (turn : Nat) : Prop :=
  ∀ thread, state.1[turn]? = some thread → condition thread state.2

instance Turn.decidable (condition : θ → σ → Prop) [∀ thread shared, Decidable (condition thread shared)]
    (state : List θ × σ) (turn : Nat) : Decidable (Turn condition state turn) :=
  match here : state.1[turn]? with
  | none => isTrue fun thread there => by
    rw [here] at there
    cases there
  | some thread => decidable_of_iff (condition thread state.2)
      ⟨fun met other there => Option.some.inj (here.symm.trans there) ▸ met, fun met => met thread here⟩

/-- What every step of a thread keeps for the thread, for what is shared and for threads of
another identity, a run keeps. -/
theorem run_stable {identity : θ → ι} {condition : θ → σ → Prop} (holds : σ → Prop) (knows : θ → σ → Prop)
    (kept : ∀ thread shared next after, threads.step thread shared = some (next, after) → condition thread shared →
      holds shared → knows thread shared → identity next = identity thread ∧ holds after ∧ knows next after ∧
        ∀ other, identity other ≠ identity thread → knows other shared → knows other after)
    {all final : List θ} {start shared : σ} {turns : List Nat} {outputs : List Unit}
    (distinct : (all.map identity).Nodup) (initial : holds start) (known : ∀ thread ∈ all, knows thread start)
    (along : threads.machine.Along (Turn condition) (all, start) turns)
    (ran : threads.machine.run (all, start) turns = some ((final, shared), outputs)) :
    final.map identity = all.map identity ∧ holds shared ∧ ∀ thread ∈ final, knows thread shared := by
  have run := threads.machine.run_invariant_along
    (fun state => state.1.map identity = all.map identity ∧ holds state.2 ∧ ∀ thread ∈ state.1, knows thread state.2)
    ⟨rfl, initial, known⟩ (by
      intro (present, before) turn next _ ⟨same, held, knowing⟩ met stepped
      obtain ⟨thread, moved, here, step, rest⟩ := threads.machine_step stepped
      obtain ⟨inside, found⟩ := List.getElem?_eq_some_iff.mp here
      obtain ⟨unchanged, after, own, others⟩ := kept thread before moved next.2 step (met thread here) held
        (knowing thread (List.mem_of_getElem? here))
      have names : next.1.map identity = all.map identity := by
        have mapped : turn < (present.map identity).length := by simpa using inside
        have kept : identity moved = (present.map identity)[turn] := by
          rw [List.getElem_map, found, unchanged]
        rw [rest, List.map_set, kept, List.set_getElem_self]
        exact same
      refine ⟨names, after, ?_⟩
      intro other member
      obtain ⟨place, within, there⟩ := List.mem_iff_getElem.mp member
      simp only [rest, List.getElem_set] at there
      split at there
      · rw [← there]
        exact own
      · rename_i elsewhere
        have bound : place < present.length := by simpa [rest] using within
        rw [← there]
        apply others _ _ (knowing _ (List.getElem_mem bound))
        intro alike
        rw [← same] at distinct
        have mapped : turn < (present.map identity).length := by simpa using inside
        have mapped' : place < (present.map identity).length := by simpa using bound
        have equal : (present.map identity)[turn] = (present.map identity)[place] := by
          rw [List.getElem_map, List.getElem_map, found]
          exact alike.symm
        exact elsewhere (distinct.getElem_inj_iff.mp equal)) along ran
  exact run

/-- One thread by itself comes from one point to the other. -/
inductive Alone : θ × σ → θ × σ → Prop where
  | refl (point : θ × σ) : Alone point point
  | step {thread : θ} {shared : σ} {next last : θ × σ} (moved : threads.step thread shared = some next)
    (rest : Alone next last) : Alone (thread, shared) last

variable {threads}

theorem Alone.trans {first second third : θ × σ} (one : threads.Alone first second) (two : threads.Alone second third) :
    threads.Alone first third := by
  induction one with
  | refl => exact two
  | step moved _ ih => exact .step moved (ih two)

end Threads

end Coral.Library

import Coral.Library.Sorted
import Coral.Node.TriggerQueue
import Mathlib.Data.List.Chain

/-! Every trigger is delivered once. What is under way to a drain, taken together in its
order, is what has arrived since the last one, whichever of the two places it is in. -/

namespace Coral.Proofs
open Coral.Library

/-- What has not been returned by a drain, the oldest first. -/
def queued (queue : TriggerQueue) : List Trigger :=
  (match queue.call with
    | .draining out => out
    | _ => []) ++ queue.buffer ++ queue.rx

/-- What an event adds to the channel. -/
def sentBy : QueueEvent → List Trigger
  | .send trigger | .push trigger => [trigger]
  | _ => []

/-- What arrived up to each of the drains since the one before, and what since the last. -/
def arrivedBetween : List Trigger → List QueueEvent → List (List Trigger) × List Trigger
  | since, [] => ([], since)
  | since, .empty :: events => (since :: (arrivedBetween [] events).1, (arrivedBetween [] events).2)
  | since, event :: events => arrivedBetween (since ++ sentBy event) events

def drainedOf (effects : List QueueEffect) : List (List Trigger) := effects.filterMap fun
  | .drained triggers => some triggers
  | _ => none

/-- A batch has the arrivals in the order of their classes, and within a class as they came. -/
structure InClassOrder (arrivals batch : List Trigger) : Prop where
  perm : batch.Perm arrivals
  classes : batch.Pairwise fun first second => first.classPriority ≤ second.classPriority
  within : ∀ priority, batch.filter (fun trigger => trigger.classPriority = priority) =
    arrivals.filter fun trigger => trigger.classPriority = priority

/-- A wait that returned is not followed by a drain of nothing. -/
def Fruitful (first second : QueueEffect) : Prop := first = .resolved → second ≠ .drained []

structure Delivered (events : List QueueEvent) (queue : TriggerQueue) (effects : List QueueEffect) : Prop where
  once : ((drainedOf effects).flatten ++ queued queue).Perm (events.flatMap sentBy)
  ordered : List.Forall₂ InClassOrder (arrivedBetween [] events).1 (drainedOf effects)
  left : queued queue = (arrivedBetween [] events).2
  waits : effects.IsChain Fruitful
  held : effects.getLast? = some .resolved → queued queue ≠ []

theorem drainOrdered_inClassOrder (arrivals : List Trigger) : InClassOrder arrivals (drainOrdered arrivals) where
  perm := List.mergeSort_perm _ _
  classes := pairwise_mergeSort_rank Trigger.classPriority arrivals
  within := filter_mergeSort_rank Trigger.classPriority arrivals

/-- The buffer is empty while a call is under way. -/
def Staged (queue : TriggerQueue) : Prop := queue.call = .idle ∨ queue.buffer = []

/-- What one step does: it drains everything, or what is queued grows by what was sent. -/
theorem step_queued {queue next : TriggerQueue} {event : QueueEvent} {effects : List QueueEffect}
    (staged : Staged queue) (stepped : queue.step event = some (next, effects)) :
    Staged next ∧
      ((event = .empty ∧ queued next = [] ∧ effects = [.drained (drainOrdered (queued queue))]) ∨
        event ≠ .empty ∧ queued next = queued queue ++ sentBy event ∧
          (effects = [] ∨ effects = [.resolved] ∧ queued next ≠ [])) := by
  obtain ⟨rx, buffer, call⟩ := queue
  cases event with
  | send trigger =>
    cases stepped
    exact ⟨staged, .inr ⟨nofun, by simp [queued, sentBy], .inl rfl⟩⟩
  | push trigger =>
    cases call <;> cases stepped
    exact ⟨.inl rfl, .inr ⟨nofun, by simp [queued, sentBy], .inl rfl⟩⟩
  | waitNonempty =>
    cases call with
    | idle =>
      cases buffer with
      | nil =>
        cases stepped
        exact ⟨.inr rfl, .inr ⟨nofun, by simp [queued, sentBy], .inl rfl⟩⟩
      | cons first buffer =>
        cases stepped
        exact ⟨.inl rfl, .inr ⟨nofun, by simp [queued, sentBy], .inr ⟨rfl, by simp [queued]⟩⟩⟩
    | _ => cases stepped
  | received =>
    cases call with
    | waiting =>
      cases rx with
      | nil => cases stepped
      | cons trigger rx =>
        cases stepped
        exact ⟨.inl rfl, .inr ⟨nofun, by simp [queued, sentBy], .inr ⟨rfl, by simp [queued]⟩⟩⟩
    | _ => cases rx <;> cases stepped
  | dropped =>
    cases call <;> cases stepped
    exact ⟨.inl rfl, .inr ⟨nofun, by simp [queued, sentBy], .inl rfl⟩⟩
  | drainOrdered =>
    cases call <;> cases stepped
    exact ⟨.inr rfl, .inr ⟨nofun, by simp [queued, sentBy], .inl rfl⟩⟩
  | tryRecv =>
    cases call with
    | draining out =>
      have unbuffered : buffer = [] := staged.resolve_left nofun
      cases rx with
      | nil => cases stepped
      | cons trigger rx =>
        cases stepped
        exact ⟨.inr unbuffered, .inr ⟨nofun, by simp [queued, sentBy, unbuffered], .inl rfl⟩⟩
    | _ => cases rx <;> cases stepped
  | empty =>
    cases call with
    | draining out =>
      have unbuffered : buffer = [] := staged.resolve_left nofun
      cases rx with
      | nil =>
        cases stepped
        exact ⟨.inl rfl, .inl ⟨rfl, by simp [queued, unbuffered], by simp [queued, unbuffered]⟩⟩
      | cons trigger rx => cases stepped
    | _ => cases rx <;> cases stepped

theorem arrivedBetween_cons {event : QueueEvent} (other : event ≠ .empty) (since : List Trigger) (events : List QueueEvent) :
    arrivedBetween since (event :: events) = arrivedBetween (since ++ sentBy event) events := by
  cases event with
  | empty => exact (other rfl).elim
  | _ => rfl

theorem arrivedBetween_all (since : List Trigger) (events : List QueueEvent) :
    (arrivedBetween since events).1.flatten ++ (arrivedBetween since events).2 = since ++ events.flatMap sentBy := by
  induction events generalizing since with
  | nil => simp [arrivedBetween]
  | cons event events ih =>
    by_cases drain : event = .empty
    · rw [drain]
      simp only [arrivedBetween, List.flatten_cons, List.append_assoc, ih, List.flatMap_cons, sentBy, List.nil_append]
    · rw [arrivedBetween_cons drain, ih, List.flatMap_cons, List.append_assoc]

/-- From any state that the owner's calls can leave, by induction on the events. -/
theorem run_queued {queue final : TriggerQueue} {events : List QueueEvent} {effects : List QueueEffect}
    (staged : Staged queue) (ran : triggerQueue.run queue events = some (final, effects)) :
    drainedOf effects = (arrivedBetween (queued queue) events).1.map drainOrdered ∧
      queued final = (arrivedBetween (queued queue) events).2 := by
  induction events generalizing queue effects with
  | nil =>
    cases ran
    exact ⟨rfl, rfl⟩
  | cons event events ih =>
    obtain ⟨middle, first, rest, stepped, continued, rfl⟩ := triggerQueue.run_cons.mp ran
    obtain ⟨staged', outcome⟩ := step_queued staged stepped
    obtain ⟨batches, left⟩ := ih staged' continued
    have split : drainedOf (first ++ rest) = drainedOf first ++ drainedOf rest := List.filterMap_append
    rcases outcome with ⟨rfl, drained, rfl⟩ | ⟨other, grown, silent⟩
    · rw [drained] at batches left
      rw [split, batches]
      exact ⟨rfl, left⟩
    · have none_drained : drainedOf first = [] := by
        rcases silent with rfl | ⟨rfl, -⟩ <;> rfl
      rw [grown] at batches left
      rw [split, none_drained, batches, arrivedBetween_cons other]
      exact ⟨rfl, left⟩

/-- After a wait that returned there is something queued, until it is drained. -/
theorem run_fruitful {queue final : TriggerQueue} {events : List QueueEvent} {effects : List QueueEffect}
    (staged : Staged queue) (ran : triggerQueue.run queue events = some (final, effects)) :
    effects.IsChain Fruitful ∧ (queued queue ≠ [] → effects.head? ≠ some (.drained [])) := by
  induction events generalizing queue effects with
  | nil =>
    cases ran
    exact ⟨.nil, fun _ => nofun⟩
  | cons event events ih =>
    obtain ⟨middle, first, rest, stepped, continued, rfl⟩ := triggerQueue.run_cons.mp ran
    obtain ⟨staged', outcome⟩ := step_queued staged stepped
    obtain ⟨chain, held⟩ := ih staged' continued
    rcases outcome with ⟨rfl, drained, rfl⟩ | ⟨other, grown, rfl | ⟨rfl, some_queued⟩⟩
    · refine ⟨chain.cons fun effect _ => nofun, ?_⟩
      intro nonempty none_drained
      have empty : drainOrdered (queued queue) = [] := by simpa using none_drained
      apply nonempty
      have counted := congrArg List.length empty
      rwa [drainOrdered, List.length_mergeSort, List.length_nil, List.length_eq_zero_iff] at counted
    · refine ⟨chain, fun nonempty => held ?_⟩
      rw [grown]
      simp [nonempty]
    · refine ⟨chain.cons ?_, fun _ => nofun⟩
      intro effect next _ same
      rw [same] at next
      exact held some_queued next

/-- Only a drain takes away what is queued. -/
theorem run_held {queue final : TriggerQueue} {events : List QueueEvent} {effects : List QueueEffect}
    (staged : Staged queue) (ran : triggerQueue.run queue events = some (final, effects)) :
    (effects = [] → queued queue ≠ [] → queued final ≠ []) ∧ (effects.getLast? = some .resolved → queued final ≠ []) := by
  induction events generalizing queue effects with
  | nil =>
    cases ran
    exact ⟨fun _ nonempty => nonempty, nofun⟩
  | cons event events ih =>
    obtain ⟨middle, first, rest, stepped, continued, rfl⟩ := triggerQueue.run_cons.mp ran
    obtain ⟨staged', outcome⟩ := step_queued staged stepped
    obtain ⟨kept, last⟩ := ih staged' continued
    have later : rest ≠ [] → (first ++ rest).getLast? = some .resolved → queued final ≠ [] := by
      intro more ended
      rw [List.getLast?_append_of_ne_nil _ more] at ended
      exact last ended
    rcases outcome with ⟨rfl, drained, rfl⟩ | ⟨other, grown, rfl | ⟨rfl, some_queued⟩⟩
    · refine ⟨nofun, fun ended => ?_⟩
      by_cases more : rest = []
      · rw [more] at ended
        cases ended
      · exact later more ended
    · refine ⟨fun silent nonempty => kept silent ?_, last⟩
      rw [grown]
      simp [nonempty]
    · refine ⟨nofun, fun ended => ?_⟩
      by_cases more : rest = []
      · exact kept more some_queued
      · exact later more ended

/-- Over every run, whatever the sends come in between. -/
theorem triggers_delivered_once {events : List QueueEvent} {final : TriggerQueue} {effects : List QueueEffect}
    (ran : triggerQueue.run .new events = some (final, effects)) : Delivered events final effects := by
  obtain ⟨batches, left⟩ := run_queued (.inl rfl) ran
  refine ⟨?_, ?_, left, (run_fruitful (.inl rfl) ran).1, (run_held (.inl rfl) ran).2⟩
  · have sent := arrivedBetween_all [] events
    rw [List.nil_append] at sent
    rw [batches, left, ← sent]
    apply List.Perm.append_right
    rw [show queued .new = [] from rfl]
    generalize (arrivedBetween [] events).1 = arrivals
    induction arrivals with
    | nil => exact .nil
    | cons first arrivals ih => exact (List.mergeSort_perm _ _).append ih
  · rw [batches, List.forall₂_map_right_iff]
    exact List.forall₂_same.mpr fun arrivals _ => drainOrdered_inClassOrder arrivals

/-- A wait is given up after a trigger came, and another trigger comes while the drain runs. -/
theorem triggers_delivered_once_late_send :
    Delivered [.waitNonempty, .send .scheduledWake, .dropped, .waitNonempty, .received, .drainOrdered,
        .send (.humanOverride ⟨.null⟩), .tryRecv, .empty] .new
      [.resolved, .drained (drainOrdered [.scheduledWake, .humanOverride ⟨.null⟩])] :=
  triggers_delivered_once rfl

end Coral.Proofs

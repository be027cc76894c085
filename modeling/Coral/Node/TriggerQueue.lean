import Coral.Node.Agent

/-! `TriggerQueue`, the inbox of an in-process agent: an unbounded channel that anyone may
send to, and a staging buffer for what a wait has taken out of it. The owner's calls take
several steps, and sends come in between them. -/

namespace Coral
open Coral.Library

/-- What the owner is in the middle of. -/
inductive QueueCall where
  | idle
  /-- `recv` in `wait_nonempty`. -/
  | waiting
  /-- The loop of `drain_ordered`, with what it has so far. -/
  | draining (out : List Trigger)
deriving DecidableEq

structure TriggerQueue where
  rx : List Trigger := []
  buffer : List Trigger := []
  call : QueueCall := .idle
deriving DecidableEq

inductive QueueEvent where
  /-- From any clone of the `SignalSink`. -/
  | send (trigger : Trigger)
  | push (trigger : Trigger)
  | waitNonempty
  /-- `recv` gets the next trigger. -/
  | received
  /-- The wait lost a `select!`. -/
  | dropped
  | drainOrdered
  /-- `try_recv` gets the next trigger. -/
  | tryRecv
  /-- `try_recv` finds nothing. -/
  | empty
deriving DecidableEq

inductive QueueEffect where
  /-- `wait_nonempty` returns. -/
  | resolved
  /-- `drain_ordered` returns. -/
  | drained (triggers : List Trigger)
deriving DecidableEq

namespace TriggerQueue

def new : TriggerQueue := {}

/-- The calls take `&mut self`, so that only one of them is under way at a time. -/
def step (queue : TriggerQueue) (event : QueueEvent) : Option (TriggerQueue × List QueueEffect) :=
  match event with
  | .send trigger => some ({ queue with rx := queue.rx ++ [trigger] }, [])
  | .push trigger =>
    match queue.call with
    | .idle => some ({ queue with rx := queue.rx ++ [trigger] }, [])
    | _ => none
  | .waitNonempty =>
    match queue.call with
    | .idle => if queue.buffer.isEmpty then some ({ queue with call := .waiting }, []) else some (queue, [.resolved])
    | _ => none
  | .received =>
    match queue.call, queue.rx with
    | .waiting, trigger :: rx => some ({ rx, buffer := queue.buffer ++ [trigger], call := .idle }, [.resolved])
    | _, _ => none
  | .dropped =>
    match queue.call with
    | .waiting => some ({ queue with call := .idle }, [])
    | _ => none
  | .drainOrdered =>
    match queue.call with
    | .idle => some ({ queue with buffer := [], call := .draining queue.buffer }, [])
    | _ => none
  | .tryRecv =>
    match queue.call, queue.rx with
    | .draining out, trigger :: rx => some ({ queue with rx, call := .draining (out ++ [trigger]) }, [])
    | _, _ => none
  | .empty =>
    match queue.call, queue.rx with
    | .draining out, [] => some ({ queue with call := .idle }, [.drained (drainOrdered out)])
    | _, _ => none

end TriggerQueue

def triggerQueue : Machine TriggerQueue QueueEvent QueueEffect := ⟨TriggerQueue.step⟩

end Coral

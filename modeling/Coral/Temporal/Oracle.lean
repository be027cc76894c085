import Coral.Temporal.Workflow

/-! A workflow closed off by its surroundings: decisions are a function of the session,
and everything else the workflow asks for is done by an external state. -/

namespace Coral.Temporal
open Coral.Library

/-- What a run does to the outside: a hand-over to a continued run is not seen there. -/
def Effect.observable : Effect → Bool
  | .continueAsNew _ => false
  | _ => true

structure Oracle (World : Type) where
  decide : Session → Decision
  perform : World → List Effect → World × Reply

structure Driven (World : Type) where
  run : Run
  outstanding : List Effect
  world : World

inductive Move where
  | signal (signal : Signal)
  | woken
  | timerFired
  | reply (suggested : Bool)
deriving DecidableEq

/-- The move of a run to which continue-as-new is never suggested. -/
def Move.unsuggested : Move → Move
  | .reply _ => .reply false
  | move => move

namespace Driven

variable {World : Type}

def start (workflowId : String) (input : AgentInput) (world : World) : Driven World :=
  ⟨(begin workflowId input).1, (begin workflowId input).2.filter Effect.observable, world⟩

def answer (oracle : Oracle World) (driven : Driven World) : World × Reply :=
  match driven.run.await with
  | .decideStep session _ => (driven.world, .decided (oracle.decide session))
  | _ => oracle.perform driven.world driven.outstanding

def proceed (driven : Driven World) (world : World) (event : Event) : Option (Driven World × List Effect) :=
  (driven.run.step event).map fun (run, effects) => (⟨run, effects.filter Effect.observable, world⟩, effects)

def step (oracle : Oracle World) (driven : Driven World) : Move → Option (Driven World × List Effect)
  | .signal signal => (driven.run.step (.signal signal)).map fun (run, effects) => ({ driven with run }, effects)
  | .woken => driven.proceed driven.world .woken
  | .timerFired => driven.proceed driven.world .timerFired
  | .reply suggested =>
    let (world, reply) := driven.answer oracle
    driven.proceed world (.reply reply suggested)

end Driven

def Oracle.machine {World : Type} (oracle : Oracle World) : Machine (Driven World) Move Effect := ⟨Driven.step oracle⟩

end Coral.Temporal

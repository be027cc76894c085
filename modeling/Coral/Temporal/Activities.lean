import Coral.Node.LlmDecide
import Coral.Temporal.Workflow

/-! The activities' own code, as far as a workflow depends on it. -/

namespace Coral.Temporal
open Coral.Library

structure ActivityError where
  error : DecideError
  retryable : Bool
deriving DecidableEq

def classifyDecideError (error : DecideError) : ActivityError :=
  let retryable := match error with
    | .model (.transport _) | .model (.rateLimit _) => true
    | _ => false
  ⟨error, retryable⟩

/-- `decide_step`, with the installed `LlmDecide`. -/
def decideStep (llm : LlmDecide) (session : Session) (answers : Answers) : Except ActivityError Decision :=
  (llm.decide session answers).mapError classifyDecideError

/-- The triggers of the seed that the activity `build_seed` builds: human operations come after the rest. -/
def seedTriggers (triggers : List Trigger) (humanOps : List HumanOp) : List Trigger :=
  triggers ++ humanOps.map .humanOverride

inductive HostEvent where
  | answered (answers : Answers) (suggested : Bool)
  | other (event : Event)

/-- A retryable error is not seen by the workflow: the server runs the activity again. -/
def hostStep (llm : LlmDecide) (run : Run) : HostEvent → Option (Run × List Effect)
  | .answered answers suggested =>
    match run.await with
    | .decideStep session _ =>
      match decideStep llm session answers with
      | .ok action => run.step (.reply (.decided action) suggested)
      | .error failure => if failure.retryable then some (run, []) else run.step (.reply .failed suggested)
    | _ => none
  | .other event =>
    match run.await, event with
    | .decideStep _ _, .reply _ _ => none
    | _, _ => run.step event

/-- A workflow whose decisions are made by a model. -/
def hosted (llm : LlmDecide) : Machine Run HostEvent Effect := ⟨hostStep llm⟩

end Coral.Temporal

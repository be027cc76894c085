import Coral.Node.Schema

/-! `LlmDecide`: ask a model for the next step, and ask once more with a correction when
its answer does not parse. -/

namespace Coral

def MAX_DECISION_RETRIES : Nat := 1

/-- `render` is the prompt of a session, `fromValue` the derived reading of a `Decision`. -/
structure LlmDecide where
  registry : ModelRegistry
  render : Session → List Message
  fromValue : Json → Except String Decision

inductive DecideError where
  | resolving (text : String)
  | model (error : ModelError)
  | parseFailed (errors : List DecisionParseError)
deriving DecidableEq

/-- How the clients answer the attempts of one decision. -/
abbrev Answers := Option String → Nat → CompleteRequest → Except ModelError CompleteResponse

def assistantEcho (content : List ContentBlock) : Message := ⟨.assistant, content⟩

def toolUseIds (content : List ContentBlock) : List String :=
  content.filterMap fun
    | .toolUse id _ _ => some id
    | _ => none

def synthesizedToolResults (ids : List String) : Message :=
  ⟨.tool, ids.map (.toolResult · "(rejected by parser; see corrective system message)")⟩

def correctiveSystemText (error : DecisionParseError) : String :=
  "Your previous tool-use response could not be parsed into a Decision: " ++ error.toString ++
    ". Reply by calling exactly one decision tool (`read`, `list`, `search`, `write_output`, `rewrite_fs`, `idle`) " ++
    "OR one or more `call_tool` blocks dispatched together as a single parallel batch, with schema-correct " ++
    "arguments. Do not mix `call_tool` with another decision tool in the same response."

/-- What a failed attempt adds to the conversation. -/
def corrective (content : List ContentBlock) (error : DecisionParseError) : List Message :=
  let ids := toolUseIds content
  [assistantEcho content] ++ (if ids.isEmpty then [] else [synthesizedToolResults ids]) ++
    [⟨.system, [.text (correctiveSystemText error)]⟩]

def formatAttemptErrors (errors : List DecisionParseError) : String :=
  String.intercalate "; " (errors.zipIdx.map fun (error, index) =>
    if index = 0 then "attempt 1: " ++ error.toString
    else "attempt " ++ ToString.toString (index + 1) ++ " (after corrective system message): " ++ error.toString)

/-- The error in a log line or an incident. -/
def DecideError.toString (model : Option String) : DecideError → String
  | .resolving text => "resolving model " ++
      (match model with
        | some name => "Some(" ++ debugString name ++ ")"
        | none => "None") ++ ": " ++ text
  | .model error => error.toString
  | .parseFailed errors => "LlmDecide: parse failed on all " ++ ToString.toString (MAX_DECISION_RETRIES + 1) ++
      " attempt(s). " ++ formatAttemptErrors errors

namespace LlmDecide

/-- The attempts that are left, over the conversation and the errors so far. -/
def attempts (decide : LlmDecide) (complete : Nat → CompleteRequest → Except ModelError CompleteResponse)
    (model : Option String) : Nat → List Message → List DecisionParseError → Except DecideError Decision
  | 0, _, errors => .error (.parseFailed errors)
  | left + 1, messages, errors =>
    match complete errors.length ⟨messages, model⟩ with
    | .error error => .error (.model error)
    | .ok response =>
      match parseDecision decide.fromValue response.toolCalls with
      | .ok decision => .ok decision
      | .error error =>
        decide.attempts complete model left (messages ++ corrective response.content error) (errors ++ [error])

def decide (decide : LlmDecide) (session : Session) (answers : Answers) : Except DecideError Decision :=
  match decide.registry.resolve session.seed.mandate.model with
  | .error text => .error (.resolving text)
  | .ok (client, model) =>
    decide.attempts (answers client) model (MAX_DECISION_RETRIES + 1) (decide.render session) []

end LlmDecide

end Coral

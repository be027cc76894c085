import Coral.Node.Decision
import Coral.Node.ModelClient

/-! From the tool calls of a response to a `Decision`: one tool for each variant. -/

namespace Coral

def TOOL_NAMES : List String :=
  ["call_tool", "write_output", "rewrite_fs", "read", "list", "search", "idle", "spawn_child", "reconcile_children",
    "retire_child", "replace_child"]

inductive DecisionParseError where
  | noCalls
  | mixedDecisionTools (names : List String)
  | duplicateTerminalTool (tool : String) (count : Nat)
  | unknownTool (name : String)
  | argumentsNotObject (tool : String)
  | missingField (tool field : String)
  | invalidValue (tool field reason : String)
deriving DecidableEq

def DecisionParseError.toString : DecisionParseError → String
  | .noCalls => "expected at least one tool call, got none"
  | .mixedDecisionTools names =>
    "mixed decision tools in one response: [" ++ String.intercalate ", " (names.map debugString) ++ "]"
  | .duplicateTerminalTool tool count =>
    "expected exactly one `" ++ tool ++ "` call, got " ++ ToString.toString count
  | .unknownTool name => "unknown tool: " ++ name
  | .argumentsNotObject tool => "tool " ++ tool ++ ": arguments must be a JSON object"
  | .missingField tool field => "tool " ++ tool ++ ": missing required field `" ++ field ++ "`"
  | .invalidValue tool field reason => "tool " ++ tool ++ ": invalid value for `" ++ field ++ "`: " ++ reason

/-- `serde_json::Map::insert`: the members stay in the order of their names. -/
def Json.insert (key : String) (value : Json) : List (String × Json) → List (String × Json)
  | [] => [(key, value)]
  | (other, held) :: rest =>
    if other = key then (key, value) :: rest
    else if key.toList < other.toList then (key, value) :: (other, held) :: rest
    else (other, held) :: insert key value rest

def requiredFields : String → List String
  | "write_output" => ["body", "citations"]
  | "rewrite_fs" => ["ops"]
  | "read" => ["path"]
  | "list" => ["path"]
  | "search" => ["query"]
  | "idle" => ["next_after"]
  | "spawn_child" => ["agent_name", "mandate"]
  | "reconcile_children" => ["sources"]
  | "retire_child" => ["child_ref", "reason"]
  | "replace_child" => ["child_ref", "new_mandate"]
  | _ => []

def requireFields (tool : String) (fields : List String) (args : List (String × Json)) :
    Except DecisionParseError Unit :=
  match fields.find? fun field => (args.lookup field).isNone with
  | some field => .error (.missingField tool field)
  | none => .ok ()

def stringField (tool field : String) (args : List (String × Json)) : Except DecisionParseError String :=
  match args.lookup field with
  | some (.string value) => .ok value
  | _ => .error (.invalidValue tool field "expected string")

def parseCallToolArgs (call : VendorToolCall) : Except DecisionParseError ToolCall :=
  match call.arguments with
  | .object args => do
    requireFields call.name ["name", "args", "claim_seed"] args
    let name ← stringField call.name "name" args
    let claimSeed ← stringField call.name "claim_seed" args
    return ⟨name, (args.lookup "args").getD .null, claimSeed, some call.id⟩
  | _ => .error (.argumentsNotObject call.name)

/-- The parser, over `serde_json::from_value::<Decision>`. -/
def parseDecision (fromValue : Json → Except String Decision) (calls : List VendorToolCall) :
    Except DecisionParseError Decision :=
  match calls with
  | [] => .error .noCalls
  | call :: others =>
    let names := calls.map (·.name)
    match names.find? fun name => !TOOL_NAMES.contains name with
    | some unknown => .error (.unknownTool unknown)
    | none =>
      let anyCallTool := names.any (· == "call_tool")
      let anyTerminal := names.any (· != "call_tool")
      if anyCallTool && anyTerminal then .error (.mixedDecisionTools names)
      else if anyTerminal && !others.isEmpty then .error (.duplicateTerminalTool call.name calls.length)
      else if anyCallTool then (calls.mapM parseCallToolArgs).map .callTools
      else
        match call.arguments with
        | .object args => do
          requireFields call.name (requiredFields call.name) args
          match fromValue (.object (Json.insert "type" (.string call.name) args)) with
          | .ok decision => .ok decision
          | .error reason => .error (.invalidValue call.name "<unknown>" reason)
        | _ => .error (.argumentsNotObject call.name)

end Coral

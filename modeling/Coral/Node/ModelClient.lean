import Coral.Node.Json

/-! What is said to a model and what it answers, the same for every vendor, and the
registry that finds the provider of a qualified model name. -/

namespace Coral

inductive Role where
  | system
  | user
  | assistant
  | tool
deriving DecidableEq

inductive ContentBlock where
  | text (text : String)
  | toolUse (id name : String) (input : Json)
  | toolResult (toolUseId content : String)
deriving DecidableEq

structure Message where
  role : Role
  content : List ContentBlock
deriving DecidableEq

/-- `model_client::ToolCall`, as against the `ToolCall` of a decision. -/
structure VendorToolCall where
  id : String
  name : String
  arguments : Json
deriving DecidableEq

/-- The tools and the sampling options are the same in every request. -/
structure CompleteRequest where
  messages : List Message
  model : Option String
deriving DecidableEq

structure CompleteResponse where
  content : List ContentBlock
  toolCalls : List VendorToolCall
deriving DecidableEq

inductive ModelError where
  | parse (text : String)
  | transport (text : String)
  | rateLimit (text : String)
  | auth (text : String)
  | other (text : String)
deriving DecidableEq

def ModelError.toString : ModelError → String
  | .parse text => "parse error: " ++ text
  | .transport text => "transport error: " ++ text
  | .rateLimit text => "rate limit: " ++ text
  | .auth text => "auth error: " ++ text
  | .other text => "model error: " ++ text

/-- `str::split_once` at a character. -/
def splitOnce (text : String) (delimiter : Char) : Option (String × String) :=
  match text.toList.span (· ≠ delimiter) with
  | (_, []) => none
  | (before, _ :: after) => some (String.ofList before, String.ofList after)

def parseQualifiedModel (qualified : String) : Except String (String × String) :=
  match splitOnce qualified '/' with
  | none => .error ("`" ++ qualified ++ "` is not a qualified `provider/model` name")
  | some (provider, model) =>
    if provider = "" then .error ("`" ++ qualified ++ "` has an empty provider")
    else if model = "" then .error ("`" ++ qualified ++ "` has an empty model")
    else .ok (provider, model)

/-- A client is known by its provider's name; the only client of `single` has none. -/
inductive ModelRegistry where
  | single
  | map (clients : List String) (default : String)
deriving DecidableEq

def ModelRegistry.new (clients : List String) (default : String) : Except String ModelRegistry :=
  if clients.isEmpty then .error "model registry needs at least one provider"
  else if clients.contains default then .ok (.map clients default)
  else .error ("default provider `" ++ default ++ "` is not registered")

/-- The client that serves a model, and the bare model id. -/
def ModelRegistry.resolve (registry : ModelRegistry) (model : Option String) :
    Except String (Option String × Option String) := do
  let qualified ← match model with
    | some spec => if spec.toList.contains '/' then (parseQualifiedModel spec).map some else .ok none
    | none => .ok none
  let bare := match qualified with
    | some (_, bare) => some bare
    | none => model
  match registry with
  | .single => .ok (none, bare)
  | .map clients default =>
    let provider := match qualified with
      | some (provider, _) => provider
      | none => default
    if clients.contains provider then .ok (some provider, bare)
    else .error ("unknown provider `" ++ provider ++ "`; registered providers: [" ++
      String.intercalate ", " (clients.mergeSort fun first second => first.toList ≤ second.toList) ++ "]")

end Coral

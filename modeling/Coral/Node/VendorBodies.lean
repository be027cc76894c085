import Coral.Node.LlmDecide
import Coral.Node.Wire

/-! The request bodies that the two vendors are sent, and how an answer is read. An object
is written in the order of its names, as `serde_json::Map` keeps them. -/

namespace Coral

structure ToolSpec where
  name : String
  description : String
  inputSchema : Json
deriving DecidableEq

/-- `temperature` is the number that JSON writes for it. -/
structure CompleteOptions where
  maxTokens : UInt32 := 1024
  temperature : Option JsonNumber := none
deriving DecidableEq

def CompleteRequest.effectiveModel (request : CompleteRequest) (defaultModel : String) : String :=
  request.model.getD defaultModel

namespace Anthropic

def renderBlock : ContentBlock → Json
  | .text text => .object [("text", .string text), ("type", .string "text")]
  | .toolUse id name input =>
    .object [("id", .string id), ("input", input), ("name", .string name), ("type", .string "tool_use")]
  | .toolResult toolUseId content =>
    .object [("content", .string content), ("tool_use_id", .string toolUseId), ("type", .string "tool_result")]

def renderBlocks (blocks : List ContentBlock) : Json := .array (blocks.map renderBlock)

def systemChunks (message : Message) : List String :=
  match message.role with
  | .system => message.content.filterMap fun
    | .text text => some text
    | _ => none
  | .user | .assistant | .tool => []

def renderMessage (message : Message) : List Json :=
  match message.role with
  | .system => []
  | .user | .tool => [.object [("content", renderBlocks message.content), ("role", .string "user")]]
  | .assistant => [.object [("content", renderBlocks message.content), ("role", .string "assistant")]]

def renderTool (tool : ToolSpec) : Json :=
  .object [("description", .string tool.description), ("input_schema", tool.inputSchema), ("name", .string tool.name)]

def buildBody (tools : List ToolSpec) (options : CompleteOptions) (defaultModel : String) (request : CompleteRequest) :
    Json :=
  let chunks := request.messages.flatMap systemChunks
  .object ([("max_tokens", .nat options.maxTokens.toNat), ("messages", .array (request.messages.flatMap renderMessage)),
      ("model", .string (request.effectiveModel defaultModel))] ++
    (if chunks.isEmpty then [] else [("system", .string (String.intercalate "\n\n" chunks))]) ++
    Json.optionalMember "temperature" .number options.temperature ++
    (if tools.isEmpty then [] else [("tools", .array (tools.map renderTool))]))

def stringMember (value : Json) (key missing : String) : Except ModelError String :=
  match (value.get? key).bind Json.asStr with
  | some text => .ok text
  | none => .error (.parse missing)

/-- A block of a type that is not known is passed over. -/
def parseBlock (block : Json) : Except ModelError (Option ContentBlock) := do
  match ← stringMember block "type" "content block missing string `type`" with
  | "text" =>
    let text ← stringMember block "text" "text block missing `text`"
    return some (.text text)
  | "tool_use" =>
    let id ← stringMember block "id" "tool_use missing `id`"
    let name ← stringMember block "name" "tool_use missing `name`"
    return some (.toolUse id name ((block.get? "input").getD .null))
  | _ => return none

/-- The calls that a content makes, for those who only want these. -/
def projectCalls (content : List ContentBlock) : List VendorToolCall :=
  content.filterMap fun
    | .toolUse id name input => some ⟨id, name, input⟩
    | _ => none

def tokens (usage : Json) (key : String) : Except ModelError Nat :=
  match usage.get? key with
  | some (.number (.posInt count)) => .ok count
  | _ => .error (.parse ("usage missing `" ++ key ++ "`"))

def contentItems (body : Json) : Except ModelError (List Json) :=
  match body.get? "content" with
  | some (.array items) => .ok items
  | _ => .error (.parse "response missing `content` array")

def usageOf (body : Json) : Except ModelError Json :=
  match body.get? "usage" with
  | some usage => .ok usage
  | none => .error (.parse "response missing `usage`")

/-- The reading of a body that is JSON. The counts of tokens are only checked for. -/
def parseResponse (body : Json) : Except ModelError CompleteResponse := do
  let items ← contentItems body
  let blocks ← items.mapM parseBlock
  let usage ← usageOf body
  let _ ← tokens usage "input_tokens"
  let _ ← tokens usage "output_tokens"
  let content := blocks.filterMap id
  return ⟨content, projectCalls content⟩

end Anthropic

namespace Cohere

def textChunks (blocks : List ContentBlock) : List String :=
  blocks.filterMap fun
    | .text text => some text
    | _ => none

def renderTextContent (blocks : List ContentBlock) : String := String.join (textChunks blocks)

def renderToolCall : ContentBlock → Option Json
  | .toolUse id name input => some (.object [("function", .object [("arguments", .string (String.ofList input.render)),
      ("name", .string name)]), ("id", .string id), ("type", .string "function")])
  | _ => none

def renderToolResult : ContentBlock → Option Json
  | .toolResult toolUseId content =>
    some (.object [("content", .string content), ("role", .string "tool"), ("tool_call_id", .string toolUseId)])
  | _ => none

/-- An assistant's turn without text has no `content`, one without calls no `tool_calls`. -/
def renderAssistant (blocks : List ContentBlock) : Json :=
  let joined := renderTextContent blocks
  let calls := blocks.filterMap renderToolCall
  .object ((if joined = "" then [] else [("content", .string joined)]) ++ [("role", .string "assistant")] ++
    (if calls.isEmpty then [] else [("tool_calls", .array calls)]))

def renderMessage (message : Message) : List Json :=
  match message.role with
  | .system => [.object [("content", .string (renderTextContent message.content)), ("role", .string "system")]]
  | .user => [.object [("content", .string (renderTextContent message.content)), ("role", .string "user")]]
  | .assistant => [renderAssistant message.content]
  | .tool => message.content.filterMap renderToolResult

def renderTool (tool : ToolSpec) : Json :=
  .object [("function", .object [("description", .string tool.description), ("name", .string tool.name),
    ("parameters", tool.inputSchema)]), ("type", .string "function")]

def buildBody (tools : List ToolSpec) (options : CompleteOptions) (defaultModel : String) (request : CompleteRequest) :
    Json :=
  .object ([("citation_options", .object [("mode", .string "OFF")]), ("max_tokens", .nat options.maxTokens.toNat),
      ("messages", .array (request.messages.flatMap renderMessage)),
      ("model", .string (request.effectiveModel defaultModel)), ("stream", .bool false)] ++
    Json.optionalMember "temperature" .number options.temperature ++
    (if tools.isEmpty then [] else [("tools", .array (tools.map renderTool))]))

end Cohere

end Coral

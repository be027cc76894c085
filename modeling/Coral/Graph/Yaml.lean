import Coral.Node.Text
import Coral.Node.Wire
import Mathlib.Data.List.AList

/-! `graph.yaml` as it is parsed, and the checks that it passes before anything is written
from it. -/

namespace Coral.Yaml

def API_VERSION : String := "coral.engine/v1alpha1"

def KIND : String := "Graph"

inductive Cadence where
  | every (period : Duration)
  | never
deriving DecidableEq

structure Metadata where
  name : String
  description : Option String
deriving DecidableEq

inductive ToolKind where
  | builtin (builtin : String)
  | mcp (command : String) (args : List String) (env : Option (AList fun _ : String => String))

structure Tool where
  id : String
  kind : ToolKind

structure Mandate where
  text : String
  idlePeriod : Option Cadence
  model : Option String
deriving DecidableEq

structure Agent where
  id : String
  mandate : Mandate
  tools : List String
  children : List Agent

structure AgentDefaults where
  idlePeriod : Option Cadence
deriving DecidableEq

structure ExternalEnvelope where
  kind : String
  payload : Json
deriving DecidableEq

structure SeedTrigger where
  agent : String
  at_ : String
  external : ExternalEnvelope
deriving DecidableEq

structure Seed where
  triggers : List SeedTrigger
deriving DecidableEq

structure GraphYaml where
  apiVersion : String
  kind : String
  metadata : Metadata
  defaults : Option AgentDefaults
  tools : List Tool
  agents : List Agent
  seed : Seed
  policy : Option Json

/-- The errors of the validator, without the place in the source text. -/
inductive GraphYamlError where
  | unsupportedApiVersion (actual : String)
  | unsupportedKind (actual : String)
  | noAgents
  | duplicateAgentId (agentId : String)
  | cyclicChildren (agentId : String)
  | missingMandateIdlePeriod (agentId : String)
  | emptyMcpCommand (toolId : String)
  | invalidName (field value : String)
  | unknownToolReference (agentId toolId : String)
  | unknownTriggerAgent (agentId : String)
  | unsupportedTriggerAt (actual : String)
  | emptySeedTriggers
  | duplicateToolId (toolId : String)
deriving DecidableEq

def GraphYamlError.toString : GraphYamlError → String
  | .unsupportedApiVersion actual => "unsupported apiVersion " ++ debugString actual ++ ": expected " ++
      debugString API_VERSION ++
      " (this is v1 of the graph YAML schema; bumping requires a coordinated change)"
  | .unsupportedKind actual => "unsupported kind " ++ debugString actual ++ ": expected " ++ debugString KIND
  | .noAgents => "`agents:` is empty; at least one root agent is required"
  | .duplicateAgentId agentId => "duplicate agent id " ++ debugString agentId ++ " in the agent tree (every " ++
      "`agents[].id`, including nested `children:` ids, must be unique)"
  | .cyclicChildren agentId => "cyclic `children:` detected via agent " ++ debugString agentId
  | .missingMandateIdlePeriod agentId => "agent " ++ debugString agentId ++ " has no `mandate.idle_period` and " ++
      "`defaults.idle_period` is not set (declare one or the other)"
  | .emptyMcpCommand toolId => "tool " ++ debugString toolId ++
      " has `kind: mcp` with an empty `command` (set the executable to spawn for the MCP server)"
  | .invalidName field value => "name " ++ debugString value ++ " at " ++ field ++ " is not URL-path-safe: must match " ++
      "`^[a-z0-9]([a-z0-9-]*[a-z0-9])?$` (lowercase alphanumerics + `-`, must start/end with alphanumeric)"
  | .unknownToolReference agentId toolId => "agent " ++ debugString agentId ++ " references tool id " ++
      debugString toolId ++ " which is not defined under top-level `tools:` (define it, or remove the reference)"
  | .unknownTriggerAgent agentId => "seed trigger targets agent " ++ debugString agentId ++
      " which is not declared under `agents:` (no such agent will receive this trigger)"
  | .unsupportedTriggerAt actual => "seed trigger has `at: " ++ debugString actual ++
      "`; v1 supports only `at: \"start\"` (timed seeds are deferred)"
  | .emptySeedTriggers => "seed.triggers is empty; at least one initial trigger is required (the workflow's first " ++
      "tick would otherwise drain an empty queue and send the LLM an empty prompt)"
  | .duplicateToolId toolId => "duplicate tool id " ++ debugString toolId ++
      " in top-level `tools:` (ids must be unique)"

def isAlnum (byte : UInt8) : Bool := (97 ≤ byte && byte ≤ 122) || (48 ≤ byte && byte ≤ 57)

/-- `^[a-z0-9]([a-z0-9-]*[a-z0-9])?$`, byte by byte. -/
def isUrlPathSafeName (text : String) : Bool :=
  let bytes := text.toUTF8.data.toList
  match bytes.head?, bytes.getLast? with
  | some first, some last =>
    isAlnum first && isAlnum last && bytes.all fun byte => isAlnum byte || byte == 45
  | _, _ => false

def validateTools : List String → List Tool → Except GraphYamlError Unit
  | _, [] => .ok ()
  | seen, tool :: tools =>
    if tool.id ∈ seen then .error (.duplicateToolId tool.id)
    else match tool.kind with
      | .mcp command _ _ =>
        if trim command = "" then .error (.emptyMcpCommand tool.id) else validateTools (seen ++ [tool.id]) tools
      | .builtin _ => validateTools (seen ++ [tool.id]) tools

section Agents

variable (registered : List String) (defaults : Option AgentDefaults)

mutual
/-- The subtree's ids are added to those that were seen. -/
def validateAgentTree (seen : List String) : Agent → Except GraphYamlError (List String)
  | ⟨id, mandate, tools, children⟩ =>
    if isUrlPathSafeName id = false then .error (.invalidName "agents[].id" id)
    else if id ∈ seen then .error (.duplicateAgentId id)
    else if mandate.idlePeriod.isNone ∧ (defaults.bind (·.idlePeriod)).isNone then .error (.missingMandateIdlePeriod id)
    else match tools.find? fun tool => !registered.contains tool with
      | some tool => .error (.unknownToolReference id tool)
      | none => validateChildren id (seen ++ [id]) children

/-- A child that is called as its parent is no duplicate but a cycle. -/
def validateChildren (parentId : String) (seen : List String) : List Agent → Except GraphYamlError (List String)
  | [] => .ok seen
  | child :: children =>
    if child.id = parentId then .error (.cyclicChildren child.id)
    else match validateAgentTree seen child with
      | .error error => .error error
      | .ok seen => validateChildren parentId seen children
end

def validateRoots (seen : List String) : List Agent → Except GraphYamlError (List String)
  | [] => .ok seen
  | root :: roots =>
    match validateAgentTree registered defaults seen root with
    | .error error => .error error
    | .ok seen => validateRoots seen roots

end Agents

def validateTriggers (agentIds : List String) : List SeedTrigger → Except GraphYamlError Unit
  | [] => .ok ()
  | trigger :: triggers =>
    if trigger.agent ∉ agentIds then .error (.unknownTriggerAgent trigger.agent)
    else if trigger.at_ ≠ "start" then .error (.unsupportedTriggerAt trigger.at_)
    else validateTriggers agentIds triggers

def validate (graph : GraphYaml) : Except GraphYamlError Unit :=
  if graph.apiVersion ≠ API_VERSION then .error (.unsupportedApiVersion graph.apiVersion)
  else if graph.kind ≠ KIND then .error (.unsupportedKind graph.kind)
  else if isUrlPathSafeName graph.metadata.name = false then .error (.invalidName "metadata.name" graph.metadata.name)
  else if graph.agents.isEmpty then .error .noAgents
  else match validateTools [] graph.tools with
    | .error error => .error error
    | .ok () =>
      match validateRoots (graph.tools.map (·.id)) graph.defaults [] graph.agents with
      | .error error => .error error
      | .ok agentIds =>
        if graph.seed.triggers.isEmpty then .error .emptySeedTriggers
        else validateTriggers agentIds graph.seed.triggers

end Coral.Yaml

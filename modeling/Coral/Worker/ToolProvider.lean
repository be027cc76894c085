import Coral.Graph.Store
import Coral.Node.Tools
import Mathlib.Data.List.Sort

/-! The tool registry that the worker builds for a graph from the graph's rows, one server
for each command line, and keeps for as long as it lives. -/

namespace Coral.Worker

/-- `defIds` are the definitions that resolve to this server. -/
structure McpServerSpec where
  command : String
  args : List String
  env : List (String × String)
  defIds : List String
deriving DecidableEq

abbrev McpSpecKey := String × List String × List (String × String)

def McpServerSpec.key (spec : McpServerSpec) : McpSpecKey := (spec.command, spec.args, spec.env)

/-- A server that has been connected to, with the tools that it advertises. -/
structure McpClient where
  listTools : Except String (List (String × Tool))

/-- `connect_stdio_with_env`. -/
abbrev Connect := String → List String → List (String × String) → Except String McpClient

def withContext {α : Type} (context : String) (result : Except String α) : Except String α :=
  result.mapError fun error => context ++ ": " ++ error

def parseArgs : Json → Except String (List String)
  | .array items => items.mapM fun item =>
    match item.asStr with
    | some text => .ok text
    | none => .error "mcp args must be an array of strings"
  | _ => .error "mcp args must be a JSON array"

/-- The pairs are sorted by name. -/
def parseEnv : Json → Except String (List (String × String))
  | .object members => do
    let pairs ← members.mapM fun (name, value) =>
      match value.asStr with
      | some text => .ok (name, text)
      | none => .error "mcp env values must be strings"
    let map : AList fun _ : String => String := pairs.foldl (fun map (name, text) => map.insert name text) ∅
    let sorted : List ((_ : String) × String) := map.entries.insertionSort fun first second =>
      first.1.toList ≤ second.1.toList
    return sorted.map fun entry => (entry.1, entry.2)
  | .array [] => .ok []
  | .null => .ok []
  | _ => .error "mcp env_refs must be a JSON object"

def mcpSpecKey (row : ToolRecord) : Except String McpSpecKey :=
  match row.command with
  | none => .error "mcp tool row has no command"
  | some command => do
    let args ← withContext ("parsing args for mcp command " ++ debugString command) (parseArgs row.args)
    let env ← withContext ("parsing env for mcp command " ++ debugString command) (parseEnv row.envRefs)
    return (command, args, env)

/-- The specs so far, and the place of each key among them. -/
structure SpecIndex where
  index : AList fun _ : McpSpecKey => Nat
  specs : List McpServerSpec

def SpecIndex.add (state : SpecIndex) (key : McpSpecKey) (defId : String) : SpecIndex :=
  match state.index.lookup key with
  | some i => { state with specs := state.specs.modify i fun spec => { spec with defIds := spec.defIds ++ [defId] } }
  | none => ⟨state.index.insert key state.specs.length, state.specs ++ [⟨key.1, key.2.1, key.2.2, [defId]⟩]⟩

def collectSpecs (state : SpecIndex) : List ToolRecord → Except String SpecIndex
  | [] => .ok state
  | row :: rows =>
    if row.kind ≠ "mcp" then collectSpecs state rows
    else
      match mcpSpecKey row with
      | .error error => .error error
      | .ok key => collectSpecs (state.add key row.defId) rows

def mcpSpecsFromRows (rows : List ToolRecord) : Except String (List McpServerSpec) :=
  (collectSpecs ⟨∅, []⟩ rows).map (·.specs)

def builtinEchoDefIds (rows : List ToolRecord) : List String :=
  (rows.filter fun row => row.kind = "builtin" ∧ row.command = some "echo").map (·.defId)

def echoTool : Tool := fun args => .ok (.object [("echoed", args)])

def registerServers (connect : Connect) (registry : ToolRegistry) : List McpServerSpec → Except String ToolRegistry
  | [] => .ok registry
  | spec :: specs => do
    let client ← withContext ("connecting MCP server " ++ debugString spec.command)
      (connect spec.command spec.args spec.env)
    let registry ← withContext ("registering tools from MCP server " ++ debugString spec.command) do
      registry.ofServers [(spec.defIds, ← client.listTools)]
    registerServers connect registry specs

/-- The builtin is there only if no server provides its name. -/
def buildRegistry (connect : Connect) (listed : Except String (List ToolRecord)) : Except String ToolRegistry := do
  let rows ← withContext "reading graph tools from structural DB" listed
  let specs ← mcpSpecsFromRows rows
  let registry ← registerServers connect .new specs
  if registry.contains "echo" then return registry
  else
    let registry ← withContext "registering builtin echo in per-graph registry" (registry.register "echo" echoTool)
    return (builtinEchoDefIds rows).foldl (·.recordOwner "echo" ·) registry

/-- A graph's registry is built at its first request, and again only if that failed. -/
structure DbToolRegistryProvider where
  cache : AList fun _ : GraphId => ToolRegistry

def DbToolRegistryProvider.registryForGraph (provider : DbToolRegistryProvider) (connect : Connect)
    (listed : Except String (List ToolRecord)) (graphId : GraphId) : Except String ToolRegistry × DbToolRegistryProvider :=
  match provider.cache.lookup graphId with
  | some existing => (.ok existing, provider)
  | none =>
    match buildRegistry connect listed with
    | .error error => (.error error, provider)
    | .ok registry => (.ok registry, ⟨provider.cache.insert graphId registry⟩)

end Coral.Worker

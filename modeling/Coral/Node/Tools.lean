import Coral.Node.Evidence
import Mathlib.Data.List.AList

/-! The tools of a graph. A tool is known by the name that its server advertises, and may
be called by the agents that one of its owning definitions is assigned to. -/

namespace Coral

/-- What a tool answers to its arguments. -/
abbrev Tool := Json → Except String Json

structure ToolRegistry where
  tools : AList fun _ : String => Tool
  owners : AList fun _ : String => List String

structure McpRegistration where
  registered : List String
  skipped : List String
deriving DecidableEq

namespace ToolRegistry

def new : ToolRegistry := ⟨∅, ∅⟩

def recordOwner (registry : ToolRegistry) (name defId : String) : ToolRegistry :=
  let defs := (registry.owners.lookup name).getD []
  { registry with owners := registry.owners.insert name (if defId ∈ defs then defs else defs ++ [defId]) }

/-- A name that no definition owns is not allowed to anyone. -/
def isCallAllowed (registry : ToolRegistry) (name : String) (allowedDefs : List String) : Bool :=
  (registry.owners.lookup name).any fun defs => defs.any fun owner => allowedDefs.any (· == owner)

def contains (registry : ToolRegistry) (name : String) : Bool := (registry.tools.lookup name).isSome

def register (registry : ToolRegistry) (name : String) (tool : Tool) : Except String ToolRegistry :=
  if registry.contains name then .error ("tool " ++ debugString name ++ " is already registered")
  else .ok { registry with tools := registry.tools.insert name tool }

/-- The first registration of a name wins. Any name may be advertised. -/
def registerMcpServerSkippingExisting (registry : ToolRegistry) :
    List (String × Tool) → Except String (ToolRegistry × McpRegistration)
  | [] => .ok (registry, ⟨[], []⟩)
  | (name, tool) :: descriptors =>
    if registry.contains name then do
      let (after, outcome) ← registry.registerMcpServerSkippingExisting descriptors
      return (after, { outcome with skipped := name :: outcome.skipped })
    else do
      let (after, outcome) ← (← registry.register name tool).registerMcpServerSkippingExisting descriptors
      return (after, { outcome with registered := name :: outcome.registered })

def call (registry : ToolRegistry) (name : String) (args : Json) (now : DateTime) : Except String EvidenceRecord :=
  match registry.tools.lookup name with
  | none => .error ("no tool registered under name " ++ debugString name)
  | some tool => do
    let result ← tool args
    return .new name args result now

/-- The tools of a graph: those of its servers, in order, each owned by the server's definitions. -/
def ofServers (registry : ToolRegistry) : List (List String × List (String × Tool)) → Except String ToolRegistry
  | [] => .ok registry
  | (defIds, descriptors) :: servers => do
    let (after, outcome) ← registry.registerMcpServerSkippingExisting descriptors
    let owned := outcome.registered.foldl (fun after name => defIds.foldl (·.recordOwner name ·) after) after
    owned.ofServers servers

end ToolRegistry

end Coral

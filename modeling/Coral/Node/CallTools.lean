import Coral.Node.AgentCore
import Coral.Node.Tools

/-! A batch of tool calls, as the in-process host executes it. The calls run at once, and what
each is answered is given with the step. -/

namespace Coral

/-- `{:?}` of a list of names. -/
def debugStrings (names : List String) : String := "[" ++ String.intercalate ", " (names.map debugString) ++ "]"

def toolFailureCorrectionText : List ToolFailure → String
  | [failure] => "call_tool " ++ debugString failure.tool ++ " failed after exhausting retries: " ++ failure.error ++
      ". Args were " ++ String.ofList failure.args.render ++ ". Reply with a different decision " ++
      "(different args, a different tool, an idle, or a retire)."
  | failures => failures.foldl (fun text failure => text ++ "\n- " ++ debugString failure.tool ++ ": " ++ failure.error ++
        ". Args were " ++ String.ofList failure.args.render ++ ".")
      (toString failures.length ++ " parallel call_tool(s) failed after exhausting retries:") ++
      "\nReply with a different decision (different args, different tools, an idle, or a retire)."

def StepOutcome.toolError (failures : List ToolFailure) : StepOutcome :=
  ⟨.failure (toolFailureCorrectionText failures), some (.toolError failures)⟩

/-- `ToolRegistry::call`, with what the tool answers to this call. -/
def ToolRegistry.callAnswered (registry : ToolRegistry) (name : String) (args : Json) (answer : Except String Json)
    (now : DateTime) : Except String EvidenceRecord :=
  match registry.tools.lookup name with
  | none => .error ("no tool registered under name " ++ debugString name)
  | some _ => answer.map fun result => .new name args result now

theorem ToolRegistry.call_answered {registry : ToolRegistry} {name : String} {tool : Tool}
    (registered : registry.tools.lookup name = some tool) (args : Json) (now : DateTime) :
    registry.call name args now = registry.callAnswered name args (tool args) now := by
  unfold call callAnswered
  rw [registered]
  simp only
  cases tool args with
  | error error => rfl
  | ok result => rfl

section ExecuteCallTools

variable {σ : Type} [AgentStorage σ]

/-- What a call came to, with its place in the batch. -/
structure CallResult where
  place : Nat
  call : ToolCall
  result : Except String EvidenceRecord

/-- The results in the order of the calls: evidence is written, failures are collected. -/
def recordResults (fs : AgentFs) (clock : Clock) :
    List CallResult → σ → Except FsError (List ToolFailure × List String) × σ
  | [], storage => (.ok ([], []), storage)
  | ⟨place, call, .ok record⟩ :: results, storage =>
    match fs.recordEvidence (clock place) record call.claimSeed storage with
    | (.error error, after) => (.error error, after)
    | (.ok path, after) =>
      match recordResults fs clock results after with
      | (.error error, final) => (.error error, final)
      | (.ok (failures, recorded), final) => (.ok (failures, path :: recorded), final)
  | ⟨_, call, .error error⟩ :: results, storage =>
    match recordResults fs clock results storage with
    | (.error other, final) => (.error other, final)
    | (.ok (failures, recorded), final) => (.ok (⟨call.name, call.args, error⟩ :: failures, recorded), final)

def batchOutcome (failures : List ToolFailure) (recorded : List String) : StepOutcome :=
  if failures.isEmpty then
    .ok (toString recorded.length ++ " tool call(s) succeeded; cite this evidence: " ++ String.intercalate ", " recorded)
  else .toolError failures

/-- The calls that are dispatched, beside what the step comes to. Those of unknown tools
keep the whole batch back. -/
def executeCallTools (fs : AgentFs) (registry : ToolRegistry) (answers : Nat → Except String Json)
    (called written : Clock) (calls : List ToolCall) (storage : σ) :
    List (String × Json) × Except FsError StepOutcome × σ :=
  let unknown := (calls.filter fun call => !registry.contains call.name).map (·.name)
  if unknown.isEmpty then
    let results := calls.zipIdx.map fun (call, place) =>
      ⟨place, call, registry.callAnswered call.name call.args (answers place) (called place)⟩
    let dispatched := calls.map fun call => (call.name, call.args)
    match recordResults fs written results storage with
    | (.error error, after) => (dispatched, .error error, after)
    | (.ok (failures, recorded), after) => (dispatched, .ok (batchOutcome failures recorded), after)
  else ([], .ok (.needsCorrection ("call_tools: no tool registered under name(s) " ++ debugStrings unknown)), storage)

end ExecuteCallTools

end Coral

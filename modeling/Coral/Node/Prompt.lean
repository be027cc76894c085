import Coral.Node.LlmDecide
import Coral.Node.Wire

/-! What the model is shown of a session: the standing prompt, what woke the agent, the
names of its files and the steps so far. -/

namespace Coral

/-- `str::replace` over characters. `skip` counts down what is left of the match at hand. -/
def replaceChars (pattern replacement : List Char) : Nat → List Char → List Char
  | _, [] => []
  | skip + 1, _ :: rest => replaceChars pattern replacement skip rest
  | 0, char :: rest =>
    if pattern.isPrefixOf (char :: rest) then replacement ++ replaceChars pattern replacement (pattern.length - 1) rest
    else char :: replaceChars pattern replacement 0 rest

def replaceText (text pattern replacement : String) : String :=
  String.ofList (replaceChars pattern.toList replacement.toList 0 text.toList)

/-- `serde_json::to_string`. -/
def Json.text (value : Json) : String := String.ofList value.render

namespace Message

def system (text : String) : Message := ⟨.system, [.text text]⟩

def user (text : String) : Message := ⟨.user, [.text text]⟩

end Message

namespace Prompt

def renderToolCatalog (tools : List String) : String :=
  if tools.isEmpty then
    "You have no tools assigned; you cannot call any tool (but `read`, `list`, and `search` over your own files are " ++
      "always available)."
  else
    "You may call only these assigned tools: " ++ String.intercalate ", " tools ++
      ". Each may expose one or more named operations."

/-- The template is the text of `system_prompt.md`. -/
def renderSystem (template : String) (mandate : Mandate) : String :=
  replaceText (replaceText template "\x7b\x7bTOOLS\x7d\x7d" (renderToolCatalog mandate.tools))
    "\x7b\x7bMANDATE\x7d\x7d" mandate.text

def SCHEDULED_REFRESH : String :=
  "# Wake — scheduled refresh, no new signals. Re-check your slice and refresh your Output."

def humanDetail (op : HumanOp) : String := op.toJson.text

def externalDetail (kind : String) (payload : Json) : String := "\"" ++ kind ++ "\": " ++ payload.text

def reconcileSourceJson (childRef : AgentRef) (outputId : OutputId) : String :=
  (ReconcileSource.toJson ⟨childRef, outputId⟩).text

def renderSingleSignal : Trigger → String
  | .scheduledWake => SCHEDULED_REFRESH
  | .humanOverride op => "# Wake — human override: " ++ humanDetail op
  | .external kind payload => "# Wake — external signal " ++ externalDetail kind payload
  | .childOutput childRef agentName outputId =>
    "# Wake — child report: " ++ agentName ++ " emitted an output. Reconcile it — `reconcile_children` source: " ++
      reconcileSourceJson childRef outputId
  | .childRetired _ agentName reason => "# Wake — child retired: " ++ agentName ++ " (" ++ reason ++ ")."

/-- The line of a trigger in its group, and none for one that no group has. -/
def signalDetail : Trigger → Option String
  | .scheduledWake => none
  | .humanOverride op => some (humanDetail op)
  | .external kind payload => some (externalDetail kind payload)
  | .childOutput childRef agentName outputId =>
    some (agentName ++ " emitted an output; reconcile source: " ++ reconcileSourceJson childRef outputId)
  | .childRetired _ agentName reason => some (agentName ++ " retired (" ++ reason ++ ")")

def isHuman : Trigger → Bool
  | .humanOverride _ => true
  | _ => false

def isExternal : Trigger → Bool
  | .external _ _ => true
  | _ => false

def isChild : Trigger → Bool
  | .childOutput _ _ _ | .childRetired _ _ _ => true
  | _ => false

/-- A group of the briefing, left out when nothing is in it. -/
def renderGroup (title : String) (group : List Trigger) : String :=
  if group.isEmpty then ""
  else
    "\n\n" ++ title ++ " (" ++ toString group.length ++ "):" ++
      String.join ((group.filterMap signalDetail).map ("\n  - " ++ ·))

def renderTriggers (triggers : List Trigger) : String :=
  let humans := triggers.filter isHuman
  let externals := triggers.filter isExternal
  let children := triggers.filter isChild
  let signalCount := humans.length + externals.length + children.length
  if signalCount = 0 then SCHEDULED_REFRESH
  else
    match triggers with
    | [only] => renderSingleSignal only
    | _ =>
      let noun := if signalCount = 1 then "signal" else "signals"
      let also := if signalCount < triggers.length then "; a scheduled refresh was also due" else ""
      "# Wake — event-driven (" ++ toString signalCount ++ " " ++ noun ++ also ++ ")" ++
        renderGroup "Human override" humans ++ renderGroup "External" externals ++ renderGroup "Child reports" children

def renderIndexBucket (files : List String) (more : Remainder) (dir : String) : String :=
  let joined := String.intercalate ", " files
  if files.isEmpty then "(none)"
  else
    match more with
    | .none => joined
    | .exactly count => joined ++ " (+" ++ toString count ++ " more — `list " ++ dir ++ "` for the full set)"
    | .atLeast count => joined ++ " (" ++ toString count ++ "+ more — `list " ++ dir ++ "` for the full set)"

def renderIndex (index : FsIndex) : String :=
  "# Your files (index)\n\nnotes/: " ++ renderIndexBucket index.notes index.notesMore "notes/" ++
    "\noutputs/: " ++ renderIndexBucket index.outputs index.outputsMore "outputs/" ++
    "\n\nThis index lists only your most recent files by name, not their contents, and not necessarily all of them. " ++
    "Use `read` to fetch a file, `list` a directory to see everything in it, or `search` to find a string across " ++
    "files. When something you need isn't listed here, explore for it — it has not been deleted, just not surfaced."

def actionLabel : Decision → String
  | .callTools calls => "call_tool: " ++ String.intercalate ", " (calls.map (·.name))
  | .writeOutput _ _ => "write_output"
  | .rewriteFs _ => "rewrite_fs"
  | .read path => "read " ++ path
  | .list path => "list " ++ path
  | .search query (some path) => "search " ++ debugString query ++ " in " ++ path
  | .search query none => "search " ++ debugString query
  | .idle _ => "idle"
  | .spawnChild agentName _ => "spawn_child " ++ agentName
  | .reconcileChildren _ _ => "reconcile_children"
  | .retireChild _ _ => "retire_child"
  | .replaceChild _ _ => "replace_child"

def renderStep (place : Nat) (step : Step) : String :=
  "\n\n" ++ toString (place + 1) ++ ". " ++ actionLabel step.action ++ "\n   -> " ++
    (if step.observation.ok then "" else "FAILED: ") ++ step.observation.content

def renderSteps (steps : List Step) : String :=
  "# Steps so far this cycle (" ++ toString steps.length ++ ")" ++
    String.join (steps.zipIdx.map fun (step, place) => renderStep place step)

def render (template : String) (session : Session) : List Message :=
  [.system (renderSystem template session.seed.mandate)] ++
    (if session.seed.triggers.isEmpty then [] else [.user (renderTriggers session.seed.triggers)]) ++
    [.user (renderIndex session.seed.index)] ++
    (if session.steps.isEmpty then [] else [.user (renderSteps session.steps)])

end Prompt

def LlmDecide.withRegistry (registry : ModelRegistry) (template : String) (fromValue : Json → Except String Decision) :
    LlmDecide :=
  ⟨registry, Prompt.render template, fromValue⟩

end Coral

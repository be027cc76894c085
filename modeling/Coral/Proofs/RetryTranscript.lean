import Coral.Node.Prompt
import Coral.Node.VendorBodies
import Coral.Proofs.DecideFaults
import Coral.Proofs.StoreCalls

/-! The conversation that a retry sends. What the vendors ask of it is read off the bodies
that are written for them. -/

namespace Coral.Temporal.Proofs
open Coral.Library

/-- What counts of one message on the wire: whether an assistant's turn has anything in it,
which calls it makes, and what answers a call. -/
inductive Turn where
  | text
  | assistant (filled : Bool) (calls : List String)
  | result (id : String)
deriving DecidableEq

/-- The results that come before anything else. -/
def results : List Turn → List String
  | .result id :: rest => id :: results rest
  | _ => []

/-- Each turn of the assistant has something in it, and its calls are answered at once, each
by one result and in their order. -/
def WellFormed : List Turn → Prop
  | [] => True
  | .assistant filled calls :: rest => filled = true ∧ results rest = calls ∧ WellFormed rest
  | .text :: rest | .result _ :: rest => WellFormed rest

instance WellFormed.decidable : ∀ turns : List Turn, Decidable (WellFormed turns)
  | [] => inferInstanceAs (Decidable True)
  | .assistant filled calls :: rest =>
    have := WellFormed.decidable rest
    inferInstanceAs (Decidable (filled = true ∧ results rest = calls ∧ WellFormed rest))
  | .text :: rest => WellFormed.decidable rest
  | .result _ :: rest => WellFormed.decidable rest

section Wire

def itemsOf (value : Json) (key : String) : List Json :=
  match value.get? key with
  | some (.array items) => items
  | _ => []

def textOf (value : Json) (key : String) : String := ((value.get? key).bind Json.asStr).getD ""

def anthropicTurns (message : Json) : List Turn :=
  let blocks := itemsOf message "content"
  if textOf message "role" = "assistant" then
    [.assistant (!blocks.isEmpty)
      ((blocks.filter fun block => textOf block "type" = "tool_use").map fun block => textOf block "id")]
  else
    blocks.map fun block =>
      if textOf block "type" = "tool_result" then .result (textOf block "tool_use_id") else .text

def cohereTurns (message : Json) : List Turn :=
  let calls := itemsOf message "tool_calls"
  match textOf message "role" with
  | "assistant" => [.assistant (textOf message "content" != "" || !calls.isEmpty) (calls.map fun call => textOf call "id")]
  | "tool" => [.result (textOf message "tool_call_id")]
  | "user" => [.text]
  | _ => []

/-- The body that either vendor is sent for the request is one that it takes. -/
def Acceptable (request : CompleteRequest) : Prop :=
  ∀ (tools : List ToolSpec) (options : CompleteOptions) (defaultModel : String),
    WellFormed ((itemsOf (Anthropic.buildBody tools options defaultModel request) "messages").flatMap anthropicTurns) ∧
      WellFormed ((itemsOf (Cohere.buildBody tools options defaultModel request) "messages").flatMap cohereTurns)

end Wire

/-- The content has a call in it, or a text that is not empty. -/
def speaks (content : List ContentBlock) : Bool :=
  content.any fun
    | .text text => text != ""
    | .toolUse _ _ _ => true
    | .toolResult _ _ => false

/-- The request is sent in the course of this decision. -/
def Sent (llm : LlmDecide) (session : Session) (answers : Answers) (request : CompleteRequest) : Prop :=
  ∃ client model messages errors, llm.registry.resolve session.seed.mandate.model = .ok (client, model) ∧
    Asked llm (answers client) model (llm.render session) [] messages errors ∧
    errors.length ≤ MAX_DECISION_RETRIES ∧ request = ⟨messages, model⟩

/-- The reply does not parse, and the model is asked again. -/
def Reasked (llm : LlmDecide) (session : Session) (answers : Answers) (reply : CompleteResponse) : Prop :=
  ∃ client model messages errors error, llm.registry.resolve session.seed.mandate.model = .ok (client, model) ∧
    Asked llm (answers client) model (llm.render session) [] messages errors ∧
    errors.length < MAX_DECISION_RETRIES ∧ answers client errors.length ⟨messages, model⟩ = .ok reply ∧
    parseDecision llm.fromValue reply.toolCalls = .error error

section Turns

@[simp] theorem results_map (ids : List String) : results (ids.map .result) = ids := by
  induction ids with
  | nil => rfl
  | cons id ids ih => simp only [List.map_cons, results, ih]

theorem wellFormed_results (ids : List String) : WellFormed (ids.map .result) := by
  induction ids with
  | nil => trivial
  | cons id ids ih => exact ih

/-- A turn of the assistant ends what answers the turns before it. -/
theorem wellFormed_append {before rest : List Turn} {filled : Bool} {calls : List String} :
    WellFormed (before ++ .assistant filled calls :: rest) ↔
      WellFormed before ∧ WellFormed (.assistant filled calls :: rest) := by
  have answered : ∀ turns : List Turn, results (turns ++ .assistant filled calls :: rest) = results turns := by
    intro turns
    induction turns with
    | nil => rfl
    | cons turn turns ih => cases turn <;> simp only [List.cons_append, results, ih]
  induction before with
  | nil => exact (and_iff_right trivial).symm
  | cons turn before ih =>
    cases turn with
    | text => exact ih
    | result id => exact ih
    | assistant full calls' =>
      change (full = true ∧ results (before ++ _) = calls' ∧ WellFormed (before ++ _)) ↔
        (full = true ∧ results before = calls' ∧ WellFormed before) ∧ _
      rw [answered, propext ih]
      tauto

/-- How a vendor's body shows the messages that a decision is made of. -/
structure Shows (view : Message → List Turn) (filled : List ContentBlock → Bool) : Prop where
  system : ∀ text, view (.system text) = []
  user : ∀ text, view (.user text) = [.text]
  assistant : ∀ content, view ⟨.assistant, content⟩ = [.assistant (filled content) (toolUseIds content)]
  synthesized : ∀ ids, view (synthesizedToolResults ids) = ids.map .result

variable {view : Message → List Turn} {filled : List ContentBlock → Bool}

theorem Shows.prompt (shows_ : Shows view filled) (template : String) (session : Session) :
    WellFormed ((Prompt.render template session).flatMap view) := by
  unfold Prompt.render
  split <;> split <;>
    simp only [List.append_nil, List.cons_append, List.nil_append, List.flatMap_cons, List.flatMap_nil, shows_.system,
      shows_.user, WellFormed]

theorem Shows.echoed (shows_ : Shows view filled) (content : List ContentBlock) (error : DecisionParseError) :
    (corrective content error).flatMap view =
      .assistant (filled content) (toolUseIds content) :: (toolUseIds content).map .result := by
  have answer : (if (toolUseIds content).isEmpty then [] else [synthesizedToolResults (toolUseIds content)]).flatMap view =
      (toolUseIds content).map .result := by
    split
    · rename_i none
      rw [List.isEmpty_iff.mp none]
      rfl
    · rw [List.flatMap_singleton, shows_.synthesized]
  unfold corrective assistantEcho
  rw [List.flatMap_append, List.flatMap_append, List.flatMap_singleton, List.flatMap_singleton, answer, shows_.assistant]
  have last := shows_.system (correctiveSystemText error)
  rw [Message.system] at last
  rw [last, List.append_nil, List.singleton_append]

/-- A correction keeps the conversation well formed unless it echoes a turn with nothing in it. -/
theorem Shows.corrected_iff (shows_ : Shows view filled) {messages : List Message} {content : List ContentBlock}
    {error : DecisionParseError} :
    WellFormed ((messages ++ corrective content error).flatMap view) ↔
      WellFormed (messages.flatMap view) ∧ filled content = true := by
  rw [List.flatMap_append, shows_.echoed, wellFormed_append, WellFormed, results_map]
  have answers := wellFormed_results (toolUseIds content)
  tauto

variable {llm : LlmDecide} {complete : Nat → CompleteRequest → Except ModelError CompleteResponse} {model : Option String}

theorem Asked.trans {messages middle last : List Message} {errors between failures : List DecisionParseError}
    (one : Asked llm complete model messages errors middle between)
    (two : Asked llm complete model middle between last failures) :
    Asked llm complete model messages errors last failures := by
  induction one with
  | now => exact two
  | corrected answered unparsed _ ih => exact .corrected answered unparsed (ih two)

/-- Only what is answered to the conversations asked bears on the decision. -/
theorem attempts_congr {complete' : Nat → CompleteRequest → Except ModelError CompleteResponse} {left : Nat}
    {messages : List Message} {errors : List DecisionParseError}
    (same : ∀ last failures, Asked llm complete model messages errors last failures →
      failures.length < errors.length + left →
        complete failures.length ⟨last, model⟩ = complete' failures.length ⟨last, model⟩) :
    llm.attempts complete model left messages errors = llm.attempts complete' model left messages errors := by
  induction left generalizing messages errors with
  | zero => rfl
  | succ left ih =>
    unfold LlmDecide.attempts
    rw [← same messages errors (.now _ _) (by omega)]
    cases answered : complete errors.length ⟨messages, model⟩ with
    | error error => rfl
    | ok response =>
      cases unparsed : parseDecision llm.fromValue response.toolCalls with
      | ok decision => simp only [unparsed]
      | error error =>
        simp only [unparsed]
        apply ih
        intro last failures asked within
        rw [List.length_append, List.length_singleton] at within
        exact same last failures (.corrected answered unparsed asked) (by omega)

theorem Shows.asked (shows_ : Shows view filled) {messages last : List Message} {errors failures : List DecisionParseError}
    (asked : Asked llm complete model messages errors last failures) (start : WellFormed (messages.flatMap view))
    (speaking : ∀ middle between reply error, Asked llm complete model messages errors middle between →
      between.length < failures.length → complete between.length ⟨middle, model⟩ = .ok reply →
      parseDecision llm.fromValue reply.toolCalls = .error error → filled reply.content = true) :
    WellFormed (last.flatMap view) := by
  induction asked with
  | now => exact start
  | corrected answered unparsed later ih =>
    have within := asked_errors later
    rw [List.length_append, List.length_singleton] at within
    refine ih (shows_.corrected_iff.mpr ⟨start, speaking _ _ _ _ (.now _ _) (by omega) answered unparsed⟩) ?_
    intro middle between reply error asked
    exact speaking middle between reply error (.corrected answered unparsed asked)

/-- All the requests of a decision are well formed exactly when each reply that is echoed has
something in it. -/
theorem Shows.sent_iff (shows_ : Shows view filled) {registry : ModelRegistry} {template : String}
    {fromValue : Json → Except String Decision} {session : Session} {answers : Answers} :
    (∀ request, Sent (.withRegistry registry template fromValue) session answers request →
        WellFormed (request.messages.flatMap view)) ↔
      ∀ reply, Reasked (.withRegistry registry template fromValue) session answers reply → filled reply.content = true := by
  constructor
  · intro formed reply ⟨client, model, messages, errors, error, resolved, asked, within, answered, unparsed⟩
    have next := formed ⟨messages ++ corrective reply.content error, model⟩ ⟨client, model, _, errors ++ [error], resolved,
      asked.trans (.corrected answered unparsed (.now _ _)), by
        rw [List.length_append, List.length_singleton]
        omega, rfl⟩
    exact (shows_.corrected_iff.mp next).2
  · intro speaking request ⟨client, model, messages, errors, resolved, asked, within, same⟩
    subst same
    refine shows_.asked asked (shows_.prompt template session) ?_
    intro middle between reply error before earlier answered unparsed
    exact speaking reply ⟨client, model, middle, between, error, resolved, before, by omega, answered, unparsed⟩

end Turns

section Vendors

private theorem anthropic_messages (tools : List ToolSpec) (options : CompleteOptions) (defaultModel : String)
    (request : CompleteRequest) : itemsOf (Anthropic.buildBody tools options defaultModel request) "messages" =
      request.messages.flatMap Anthropic.renderMessage := by
  obtain ⟨maxTokens, temperature⟩ := options
  unfold Anthropic.buildBody
  simp only
  split <;> split <;> cases temperature <;> rfl

private theorem cohere_messages (tools : List ToolSpec) (options : CompleteOptions) (defaultModel : String)
    (request : CompleteRequest) : itemsOf (Cohere.buildBody tools options defaultModel request) "messages" =
      request.messages.flatMap Cohere.renderMessage := by
  obtain ⟨maxTokens, temperature⟩ := options
  unfold Cohere.buildBody
  split <;> cases temperature <;> rfl

/-- In Anthropic's form the content of a turn is the list of its blocks. -/
theorem anthropic_shows :
    Shows (fun message => (Anthropic.renderMessage message).flatMap anthropicTurns) (fun content => !content.isEmpty) where
  system _ := rfl
  user _ := rfl
  assistant content := by
    have uses : ((content.map Anthropic.renderBlock).filter fun block => decide (textOf block "type" = "tool_use")).map
        (fun block => textOf block "id") = toolUseIds content := by
      induction content with
      | nil => rfl
      | cons block content ih =>
        unfold toolUseIds at ih ⊢
        cases block with
        | text _ | toolResult _ _ => exact ih
        | toolUse id name input => exact congrArg (id :: ·) ih
    change [Turn.assistant (!(content.map Anthropic.renderBlock).isEmpty)
      (((content.map Anthropic.renderBlock).filter fun block => decide (textOf block "type" = "tool_use")).map
        fun block => textOf block "id")] = _
    rw [uses, List.isEmpty_map]
  synthesized ids := by
    change ((ids.map _).map Anthropic.renderBlock).map _ ++ [] = _
    rw [List.append_nil, List.map_map, List.map_map]
    rfl

/-- A content has a text that is not empty or a call exactly when what Cohere is sent of it has. -/
theorem speaks_eq (content : List ContentBlock) :
    speaks content =
      (Cohere.renderTextContent content != "" || !(content.filterMap Cohere.renderToolCall).isEmpty) := by
  induction content with
  | nil => rfl
  | cons block content ih =>
    cases block with
    | text text =>
      change (text != "" || speaks content) = (String.join (text :: Cohere.textChunks content) != "" ||
        !(content.filterMap Cohere.renderToolCall).isEmpty)
      rw [ih, String.join_cons, Cohere.renderTextContent]
      by_cases empty : text = ""
      · rw [empty, String.empty_append, bne_self_eq_false, Bool.false_or]
      · have longer : (text ++ String.join (Cohere.textChunks content) != "") = true := by
          rw [bne_iff_ne, ne_eq, String.append_eq_empty_iff]
          exact fun both => empty both.1
        rw [longer, bne_iff_ne.mpr empty, Bool.true_or, Bool.true_or]
    | toolUse id name input =>
      change true = (_ || true)
      rw [Bool.or_true]
    | toolResult _ _ => exact ih

private theorem cohere_assistant (content : List ContentBlock) :
    cohereTurns (Cohere.renderAssistant content) =
      [.assistant (Cohere.renderTextContent content != "" || !(content.filterMap Cohere.renderToolCall).isEmpty)
        ((content.filterMap Cohere.renderToolCall).map fun call => textOf call "id")] := by
  unfold Cohere.renderAssistant
  simp only
  generalize content.filterMap Cohere.renderToolCall = calls
  generalize Cohere.renderTextContent content = joined
  by_cases silent : joined = "" <;> cases calls <;> simp only [silent, if_true, if_false] <;> rfl

/-- In Cohere's form a turn of the assistant has its texts as one, left out when it is empty. -/
theorem cohere_shows :
    Shows (fun message => (Cohere.renderMessage message).flatMap cohereTurns) speaks where
  system _ := rfl
  user _ := rfl
  assistant content := by
    have uses : (content.filterMap Cohere.renderToolCall).map (fun call => textOf call "id") = toolUseIds content := by
      induction content with
      | nil => rfl
      | cons block content ih =>
        unfold toolUseIds at ih ⊢
        cases block with
        | text _ | toolResult _ _ => exact ih
        | toolUse id name input => exact congrArg (id :: ·) ih
    change cohereTurns (Cohere.renderAssistant content) ++ [] = _
    rw [List.append_nil, cohere_assistant, uses, speaks_eq]
  synthesized ids := by
    induction ids with
    | nil => rfl
    | cons id ids ih => exact congrArg (Turn.result id :: ·) ih

theorem filled_of_speaks {content : List ContentBlock} (speaking : speaks content = true) : (!content.isEmpty) = true := by
  cases content with
  | nil => cases speaking
  | cons => rfl

/-- Either vendor takes every request of a decision exactly when each reply that the model is
asked again about has a call or a text that is not empty. -/
theorem requests_acceptable_iff (registry : ModelRegistry) (template : String)
    (fromValue : Json → Except String Decision) (session : Session) (answers : Answers) :
    (∀ request, Sent (.withRegistry registry template fromValue) session answers request → Acceptable request) ↔
      ∀ reply, Reasked (.withRegistry registry template fromValue) session answers reply → speaks reply.content = true := by
  have acceptable : ∀ request : CompleteRequest, Acceptable request ↔
      WellFormed (request.messages.flatMap fun message => (Anthropic.renderMessage message).flatMap anthropicTurns) ∧
        WellFormed (request.messages.flatMap fun message => (Cohere.renderMessage message).flatMap cohereTurns) := by
    intro request
    simp only [Acceptable, anthropic_messages, cohere_messages, List.flatMap_assoc]
    exact ⟨fun all => all [] {} "", fun both _ _ _ => both⟩
  simp only [acceptable]
  constructor
  · intro formed
    exact cohere_shows.sent_iff.mp fun request sent => (formed request sent).2
  · intro speaking request sent
    exact ⟨anthropic_shows.sent_iff.mpr (fun reply reasked => filled_of_speaks (speaking reply reasked)) request sent,
      cohere_shows.sent_iff.mpr speaking request sent⟩

/-- A reply whose blocks are all of types that the adapter passes over. -/
private def thinkingOnly : Json :=
  .object [("content", .array [.object [("thinking", .string "..."), ("type", .string "thinking")]]),
    ("usage", .object [("input_tokens", .nat 1), ("output_tokens", .nat 1)])]

/-- What the vendor may answer is echoed as an assistant's turn with nothing in it. -/
theorem empty_turn_echoed :
    ¬ ∀ (registry : ModelRegistry) (template : String) (fromValue : Json → Except String Decision) (session : Session)
        (bodies : Nat → CompleteRequest → Json) (request : CompleteRequest),
        Sent (.withRegistry registry template fromValue) session (fun _ attempt asked =>
          Anthropic.parseResponse (bodies attempt asked)) request → Acceptable request := by
  intro told
  have formed := cohere_shows.sent_iff.mp fun request sent => by
    have both := told .single "" (fun _ => .error "") ⟨⟨.newNever "" none, [], {}⟩, []⟩ (fun _ _ => thinkingOnly) request
      sent [] {} ""
    rw [cohere_messages, List.flatMap_assoc] at both
    exact both.2
  have silent := formed ⟨[], []⟩ ⟨none, none, _, [], .noCalls, rfl, .now _ _, by decide, by rfl, rfl⟩
  cases silent

/-- The calls of an answer are those that its content makes. -/
theorem parseResponse_projects {body : Json} {response : CompleteResponse}
    (parsed : Anthropic.parseResponse body = .ok response) :
    response.toolCalls = Anthropic.projectCalls response.content := by
  obtain ⟨items, -, parsed⟩ := Coral.Proofs.bind_ok parsed
  obtain ⟨blocks, -, parsed⟩ := Coral.Proofs.bind_ok parsed
  obtain ⟨usage, -, parsed⟩ := Coral.Proofs.bind_ok parsed
  obtain ⟨_, -, parsed⟩ := Coral.Proofs.bind_ok parsed
  obtain ⟨_, -, parsed⟩ := Coral.Proofs.bind_ok parsed
  cases parsed
  rfl

end Vendors

end Coral.Temporal.Proofs

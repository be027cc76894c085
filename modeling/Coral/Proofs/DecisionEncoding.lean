import Coral.Node.Reading
import Coral.Proofs.AgentPrefixes

/-! The tool calls that a decision is made of, read back. Between the two stands the
reading that is derived for a decision, of which only this is relied on: it reads what is
written, and its variant is the one of the tag. -/

namespace Coral.Proofs
open Coral.Library Json

section Values

theorem readNat_nat {value max : Nat} (fits : value ≤ max) : (Json.nat value).readNat max = some value := if_pos fits

theorem readU64_nat (value : UInt64) : (Json.nat value.toNat).readU64 = some value := by
  unfold Json.readU64
  rw [readNat_nat (toNat_le_u64Max value), Option.map_some, UInt64.ofNat_toNat]

theorem readU32_nat (value : UInt32) : (Json.nat value.toNat).readU32 = some value := by
  unfold Json.readU32
  rw [readNat_nat (show value.toNat ≤ 2 ^ 32 - 1 from Nat.le_pred_of_lt value.toNat_lt), Option.map_some, UInt32.ofNat_toNat]

theorem readItems_list {α : Type} {toJson : α → Json} {read : Json → Option α} {values : List α}
    (each : ∀ value ∈ values, read (toJson value) = some value) : (Json.list toJson values).readItems read = some values := by
  unfold Json.list Json.readItems
  simp only
  induction values with
  | nil => rfl
  | cons value values ih =>
    rw [List.forall_mem_cons] at each
    rw [List.map_cons, List.mapM_cons, each.1, ih each.2]
    rfl

theorem readItems_strings (values : List String) : (Json.list .string values).readItems asStr = some values :=
  readItems_list fun _ _ => rfl

theorem readOption_some {α : Type} {read : Json → Option α} {value : Json} {result : α} (there : value ≠ .null)
    (reads : read value = some result) : value.readOption read = some (some result) := by
  cases value with
  | null => exact (there rfl).elim
  | _ => exact congrArg (Option.map some) reads

theorem readOption_option {α : Type} {toJson : α → Json} {read : Json → Option α} {value : Option α}
    (there : ∀ inner, toJson inner ≠ .null) (reads : ∀ inner, value = some inner → read (toJson inner) = some inner) :
    (Json.option toJson value).readOption read = some value := by
  cases value with
  | none => rfl
  | some inner => exact readOption_some (there inner) (reads inner rfl)

theorem readOption_string (text : String) : (Json.string text).readOption asStr = some (some text) := rfl

theorem hexValue_digits (value count : Nat) :
    hexValue ((List.range count).map fun place => value / 16 ^ place % 16) = value % 16 ^ count := by
  induction count generalizing value with
  | zero => rw [List.range_zero, List.map_nil, hexValue, Nat.pow_zero, Nat.mod_one]
  | succ count ih =>
    have shifted : ∀ place, value / 16 ^ (place + 1) % 16 = value / 16 / 16 ^ place % 16 := by
      intro place
      rw [Nat.div_div_eq_div_mul, Nat.pow_succ, Nat.mul_comm]
    rw [List.range_succ_eq_map, List.map_cons, List.map_map, hexValue]
    simp only [Function.comp_def, Nat.succ_eq_add_one, shifted, ih, Nat.pow_zero, Nat.div_one]
    rw [Nat.pow_succ, Nat.mul_comm (16 ^ count), Nat.mod_mul]

theorem ofHyphenated_hyphenated (uuid : Uuid) : Uuid.ofHyphenated uuid.hyphenated = some uuid := by
  have decoded : ∀ digit < 16, (if (Nat.digitChar digit).toNat < 58 then (Nat.digitChar digit).toNat - 48
      else (Nat.digitChar digit).toNat - 87) = digit := by decide
  have backwards : (List.range 32).reverse = (List.range 32).map (31 - ·) := by decide
  have digits : hexDigitsRev uuid.hyphenated = (List.range 32).map fun place => uuid.bits.toNat / 16 ^ place % 16 := by
    unfold hexDigitsRev
    rw [hyphenated_digits, List.map_map, ← List.map_reverse, backwards, List.map_map]
    apply List.map_congr_left
    intro place below
    have inside := List.mem_range.mp below
    simp only [Function.comp_apply]
    rw [decoded _ (Nat.mod_lt _ (by decide)), show 31 - (31 - place) = place by omega]
  have same : (⟨.ofNat 128 (hexValue (hexDigitsRev uuid.hyphenated))⟩ : Uuid) = uuid := by
    rw [digits, hexValue_digits, Nat.mod_eq_of_lt (show uuid.bits.toNat < 16 ^ 32 from uuid.bits.isLt),
      BitVec.ofNat_toNat, BitVec.setWidth_eq]
  unfold Uuid.ofHyphenated
  simp only
  rw [same, if_pos rfl]

end Values

section Fields

/-- Whole milliseconds, as many as a `u64` holds. -/
def WholeMillis (duration : Duration) : Prop := ∃ millis ≤ u64Max, duration = .fromMillis millis

/-- The durations are whole milliseconds, and the sizes are those of a `usize`. -/
structure MandateFits (mandate : Mandate) : Prop where
  idle : ∀ period, mandate.idlePeriod = some period → WholeMillis period
  backoff : ∀ policy, mandate.retryPolicy = some policy → WholeMillis policy.backoff
  outputs : mandate.contextPolicy.recentOutputs ≤ u64Max
  evidence : mandate.contextPolicy.recentEvidence ≤ u64Max
  claims : mandate.contextPolicy.openClaimsMax ≤ u64Max

def DecisionFits : Decision → Prop
  | .idle nextAfter => WholeMillis nextAfter
  | .spawnChild _ mandate | .replaceChild _ mandate => MandateFits mandate
  | .reconcileChildren _ conflict => ∀ intent, conflict = some intent → ∀ resolution, intent.resolution = some resolution →
      resolution.chosenAlternativeIdx ≤ u64Max
  | .callTools _ | .writeOutput _ _ | .rewriteFs _ | .read _ | .list _ | .search _ _ | .retireChild _ _ => True

theorem lookup_ne {name other : String} {value : Json} {members : List (String × Json)} (apart : name ≠ other) :
    List.lookup name ((other, value) :: members) = members.lookup name := by
  rw [List.lookup_cons, beq_eq_false_iff_ne.mpr apart]

theorem millis_inverts {duration : Duration} (whole : WholeMillis duration) :
    Duration.ofMillisJson duration.toMillisJson = some duration := by
  obtain ⟨millis, bound, rfl⟩ := whole
  have same : (Duration.fromMillis millis).asMillis = millis := Nat.mul_div_cancel _ (by decide)
  unfold Duration.ofMillisJson Duration.toMillisJson
  rw [same, Nat.min_eq_left bound, readNat_nat bound]
  rfl

theorem agentId_inverts (id : AgentId) : AgentId.ofJson id.toJson = some id := by
  unfold AgentId.ofJson AgentId.toJson AgentId.toString
  simp only [Json.asStr, Option.bind_eq_bind, Option.bind_some, ofHyphenated_hyphenated]
  rfl

theorem agentRef_inverts (ref : AgentRef) : AgentRef.ofJson ref.toJson = some ref := by
  unfold AgentRef.ofJson AgentRef.toJson
  simp [Json.members, Members.required, lookup_ne, List.lookup_cons_self, agentId_inverts, Json.asStr]

theorem outputId_inverts (id : OutputId) : OutputId.ofJson id.toJson = some id := rfl

theorem retryPolicy_inverts {policy : RetryPolicy} (whole : WholeMillis policy.backoff) :
    RetryPolicy.ofJson policy.toJson = some policy := by
  unfold RetryPolicy.ofJson RetryPolicy.toJson
  simp [Json.members, Members.required, lookup_ne, List.lookup_cons_self, readU32_nat, millis_inverts whole]

theorem contextPolicy_inverts {policy : ContextPolicy} (outputs : policy.recentOutputs ≤ u64Max)
    (evidence : policy.recentEvidence ≤ u64Max) (claims : policy.openClaimsMax ≤ u64Max) :
    ContextPolicy.ofJson policy.toJson = some policy := by
  unfold ContextPolicy.ofJson ContextPolicy.toJson
  simp [Json.members, Members.defaulted, lookup_ne, List.lookup_cons_self, readNat_nat outputs, readNat_nat evidence, readNat_nat claims]

theorem mandate_inverts {mandate : Mandate} (fits : MandateFits mandate) : Mandate.ofJson mandate.toJson = some mandate := by
  obtain ⟨text, idlePeriod, stepCap, retryPolicy, contextPolicy, model, tools⟩ := mandate
  have idle := @readOption_option _ Duration.toMillisJson Duration.ofMillisJson idlePeriod nofun fun period same =>
    millis_inverts (fits.idle period same)
  have cap := @readOption_option _ (fun cap : UInt64 => Json.nat cap.toNat) Json.readU64 stepCap nofun fun cap _ =>
    readU64_nat cap
  have policy := contextPolicy_inverts fits.outputs fits.evidence fits.claims
  simp only at policy
  unfold Mandate.ofJson Mandate.toJson
  cases retryPolicy with
  | none =>
    cases model <;>
      simp [Json.members, Members.required, Members.defaulted, Json.optionalMember, lookup_ne, List.lookup_cons_self,
        Json.asStr, readOption_string, idle, cap, policy, readItems_strings]
  | some retried =>
    have again : retried.toJson.readOption RetryPolicy.ofJson = some (some retried) :=
      readOption_some nofun (retryPolicy_inverts (fits.backoff retried rfl))
    cases model <;>
      simp [Json.members, Members.required, Members.defaulted, Json.optionalMember, lookup_ne, List.lookup_cons_self,
        Json.asStr, readOption_string, idle, cap, policy, again, readItems_strings]

theorem toolCall_inverts (call : ToolCall) : ToolCall.ofJson call.toJson = some call := by
  obtain ⟨name, args, claimSeed, toolUseId⟩ := call
  unfold ToolCall.ofJson ToolCall.toJson
  cases toolUseId <;>
    simp [Json.members, Members.required, Members.defaulted, Json.optionalMember, lookup_ne, List.lookup_cons_self, Json.asStr, readOption_string]

theorem fsOp_inverts (op : FsOp) : FsOp.ofJson op.toJson = some op := by
  unfold FsOp.ofJson FsOp.toJson
  cases op <;> simp [Json.members, Members.required, lookup_ne, List.lookup_cons_self, Json.asStr]

theorem reconcileSource_inverts (source : ReconcileSource) : ReconcileSource.ofJson source.toJson = some source := by
  unfold ReconcileSource.ofJson ReconcileSource.toJson
  simp [Json.members, Members.required, lookup_ne, List.lookup_cons_self, agentRef_inverts, outputId_inverts]

theorem conflictAlternative_inverts (alternative : ConflictAlternative) :
    ConflictAlternative.ofJson alternative.toJson = some alternative := by
  unfold ConflictAlternative.ofJson ConflictAlternative.toJson
  simp [Json.members, Members.required, lookup_ne, List.lookup_cons_self, Json.asStr, agentRef_inverts, outputId_inverts]

theorem conflictResolution_inverts {resolution : ConflictResolution} (fits : resolution.chosenAlternativeIdx ≤ u64Max) :
    ConflictResolution.ofJson resolution.toJson = some resolution := by
  unfold ConflictResolution.ofJson ConflictResolution.toJson
  simp [Json.members, Members.required, lookup_ne, List.lookup_cons_self, Json.asStr, readNat_nat fits]

theorem conflictIntent_inverts {intent : ConflictRecordIntent}
    (fits : ∀ resolution, intent.resolution = some resolution → resolution.chosenAlternativeIdx ≤ u64Max) :
    ConflictRecordIntent.ofJson intent.toJson = some intent := by
  obtain ⟨alternatives, resolution⟩ := intent
  have each := readItems_list fun (alternative : ConflictAlternative) (_ : alternative ∈ alternatives) =>
    conflictAlternative_inverts alternative
  unfold ConflictRecordIntent.ofJson ConflictRecordIntent.toJson
  cases resolution with
  | none => simp [Json.members, Members.required, Members.defaulted, Json.optionalMember, lookup_ne, List.lookup_cons_self, each]
  | some resolution =>
    have chosen : resolution.toJson.readOption ConflictResolution.ofJson = some (some resolution) :=
      readOption_some nofun (conflictResolution_inverts (fits resolution rfl))
    simp [Json.members, Members.required, Members.defaulted, Json.optionalMember, lookup_ne, List.lookup_cons_self, each, chosen]

end Fields

section Variants

/-- The `serde` tag of a variant. -/
def tagOf : Decision → String
  | .callTools _ => "call_tools"
  | .writeOutput _ _ => "write_output"
  | .rewriteFs _ => "rewrite_fs"
  | .read _ => "read"
  | .list _ => "list"
  | .search _ _ => "search"
  | .idle _ => "idle"
  | .spawnChild _ _ => "spawn_child"
  | .reconcileChildren _ _ => "reconcile_children"
  | .retireChild _ _ => "retire_child"
  | .replaceChild _ _ => "replace_child"

/-- What a decision is serialized to besides its tag. -/
def fieldsOf (decision : Decision) : List (String × Json) :=
  match decision.toJson with
  | .object (_ :: fields) => fields
  | _ => []

theorem toJson_tagged (decision : Decision) :
    decision.toJson = .object (("type", .string (tagOf decision)) :: fieldsOf decision) := by
  cases decision <;> rfl

/-- What is relied on of the derived reading. -/
structure Derived (fromValue : Json → Except String Decision) : Prop where
  reads : ∀ members decision, Decision.ofJson (.object members) = some decision → fromValue (.object members) = .ok decision
  tagged : ∀ members decision, fromValue (.object members) = .ok decision →
    members.lookup "type" = some (.string (tagOf decision))

theorem ofMembers_tag {tag : String} {fields : Members} {decision : Decision}
    (read : Decision.ofMembers tag fields = some decision) : tagOf decision = tag := by
  unfold Decision.ofMembers at read
  split at read
  any_goals simp only [Option.bind_eq_bind, Option.bind_eq_some_iff, Option.pure_def, Option.some.injEq] at read
  any_goals obtain ⟨_, -, rfl⟩ := read
  any_goals obtain ⟨_, -, _, -, rfl⟩ := read
  any_goals rfl

/-- Nothing but the tag is read off the member `type`. -/
theorem ofMembers_congr {tag : String} {first second : Members}
    (same : ∀ name, name ≠ "type" → first name = second name) :
    Decision.ofMembers tag first = Decision.ofMembers tag second := by
  unfold Decision.ofMembers
  split <;> simp [Members.required, Members.defaulted, same]

theorem ofMembers_fields {decision : Decision} (fits : DecisionFits decision) :
    Decision.ofMembers (tagOf decision) (fun name => (fieldsOf decision).lookup name) = some decision := by
  cases decision with
  | callTools calls =>
    have each := readItems_list fun (call : ToolCall) (_ : call ∈ calls) => toolCall_inverts call
    simp [tagOf, fieldsOf, Decision.toJson, Decision.ofMembers, Members.required, each]
  | writeOutput body citations =>
    simp [tagOf, fieldsOf, Decision.toJson, Decision.ofMembers, Members.required, lookup_ne, List.lookup_cons_self, Json.asStr,
      readItems_strings]
  | rewriteFs ops =>
    have each := readItems_list fun (op : FsOp) (_ : op ∈ ops) => fsOp_inverts op
    simp [tagOf, fieldsOf, Decision.toJson, Decision.ofMembers, Members.required, each]
  | read path => simp [tagOf, fieldsOf, Decision.toJson, Decision.ofMembers, Members.required, Json.asStr]
  | list path => simp [tagOf, fieldsOf, Decision.toJson, Decision.ofMembers, Members.required, Json.asStr]
  | search query path =>
    cases path <;>
      simp [tagOf, fieldsOf, Decision.toJson, Decision.ofMembers, Members.required, Members.defaulted, Json.optionalMember,
        lookup_ne, List.lookup_cons_self, Json.asStr, readOption_string]
  | idle nextAfter =>
    simp [tagOf, fieldsOf, Decision.toJson, Decision.ofMembers, Members.required, millis_inverts fits]
  | spawnChild agentName mandate =>
    simp [tagOf, fieldsOf, Decision.toJson, Decision.ofMembers, Members.required, lookup_ne, List.lookup_cons_self, Json.asStr,
      mandate_inverts fits]
  | reconcileChildren sources conflict =>
    have each := readItems_list fun (source : ReconcileSource) (_ : source ∈ sources) => reconcileSource_inverts source
    cases conflict with
    | none =>
      simp [tagOf, fieldsOf, Decision.toJson, Decision.ofMembers, Members.required, Members.defaulted, Json.optionalMember,
        lookup_ne, List.lookup_cons_self, each]
    | some intent =>
      have recorded : intent.toJson.readOption ConflictRecordIntent.ofJson = some (some intent) :=
        readOption_some (by intro same; cases same) (conflictIntent_inverts (fits intent rfl))
      simp [tagOf, fieldsOf, Decision.toJson, Decision.ofMembers, Members.required, Members.defaulted, Json.optionalMember,
        lookup_ne, List.lookup_cons_self, each, recorded]
  | retireChild childRef reason =>
    simp [tagOf, fieldsOf, Decision.toJson, Decision.ofMembers, Members.required, lookup_ne, List.lookup_cons_self, Json.asStr,
      agentRef_inverts]
  | replaceChild childRef newMandate =>
    simp [tagOf, fieldsOf, Decision.toJson, Decision.ofMembers, Members.required, lookup_ne, List.lookup_cons_self,
      agentRef_inverts, mandate_inverts fits]

end Variants

section Encoding

/-- A batch that a response may make: some calls, each under the id of a tool use. -/
def Batch (calls : List ToolCall) : Prop := calls ≠ [] ∧ ∀ call ∈ calls, call.toolUseId.isSome = true

instance (calls : List ToolCall) : Decidable (Batch calls) := inferInstanceAs (Decidable (_ ∧ _))

def Encodable : Decision → Prop
  | .callTools calls => Batch calls
  | _ => True

instance : DecidablePred Encodable
  | .callTools calls => inferInstanceAs (Decidable (Batch calls))
  | .writeOutput _ _ | .rewriteFs _ | .read _ | .list _ | .search _ _ | .idle _ | .spawnChild _ _ | .reconcileChildren _ _
  | .retireChild _ _ | .replaceChild _ _ => isTrue trivial

def encodeCall (id : String) (call : ToolCall) : VendorToolCall :=
  ⟨call.toolUseId.getD id, "call_tool",
    .object [("name", .string call.name), ("args", call.args), ("claim_seed", .string call.claimSeed)]⟩

/-- The tool calls for a decision: one for each call of a batch, and else one by the tag. -/
def encode (id : String) (decision : Decision) : List VendorToolCall :=
  match decision with
  | .callTools calls =>
    if Batch calls then calls.map (encodeCall id) else [⟨id, tagOf decision, .object (fieldsOf decision)⟩]
  | _ => [⟨id, tagOf decision, .object (fieldsOf decision)⟩]

/-- The call has what the tool call of the decision has. -/
structure Carries (call : VendorToolCall) (toolCall : ToolCall) : Prop where
  tool : call.name = "call_tool"
  id : toolCall.toolUseId = some call.id
  members : ∃ members, call.arguments = .object members ∧ members.lookup "name" = some (.string toolCall.name) ∧
    members.lookup "args" = some toolCall.args ∧ members.lookup "claim_seed" = some (.string toolCall.claimSeed)

/-- What no list of tool calls that parses may have. -/
inductive Malformed (calls : List VendorToolCall) : Prop where
  | unknown (call) (member : call ∈ calls) (named : call.name ∉ TOOL_NAMES)
  | mixed (call other) (member : call ∈ calls) (among : other ∈ calls) (tool : call.name = "call_tool")
      (terminal : other.name ≠ "call_tool")
  | repeated (call) (member : call ∈ calls) (terminal : call.name ≠ "call_tool") (several : 2 ≤ calls.length)
  | noObject (call) (member : call ∈ calls) (arguments : ∀ members, call.arguments ≠ .object members)

variable {fromValue : Json → Except String Decision} {calls : List VendorToolCall} {decision : Decision}

theorem parseDecision_batch (some_call : calls ≠ []) (batch : ∀ call ∈ calls, call.name = "call_tool") :
    parseDecision fromValue calls = (calls.mapM parseCallToolArgs).map .callTools := by
  cases calls with
  | nil => exact (some_call rfl).elim
  | cons call others =>
    have known : ((call :: others).map (·.name)).find? (fun name => !TOOL_NAMES.contains name) = none := by
      rw [List.find?_eq_none]
      intro name member
      obtain ⟨other, among, rfl⟩ := List.mem_map.mp member
      rw [batch other among]
      decide
    have terminal : ((call :: others).map (·.name)).any (· != "call_tool") = false := by
      simpa using batch
    have any_call : ((call :: others).map (·.name)).any (· == "call_tool") = true :=
      List.any_eq_true.mpr ⟨call.name, List.mem_cons_self, beq_iff_eq.mpr (batch call List.mem_cons_self)⟩
    unfold parseDecision
    simp only [known, terminal, any_call, Bool.and_false, Bool.false_and, Bool.false_eq_true, if_false, if_true]

theorem parseDecision_single {call : VendorToolCall} (known : call.name ∈ TOOL_NAMES) (terminal : call.name ≠ "call_tool")
    {members : List (String × Json)} (arguments : call.arguments = .object members)
    (present : requireFields call.name (requiredFields call.name) members = .ok ())
    (read : fromValue (.object (Json.insert "type" (.string call.name) members)) = .ok decision) :
    parseDecision fromValue [call] = .ok decision := by
  have listed : ([call].map (·.name)).find? (fun name => !TOOL_NAMES.contains name) = none := by
    rw [List.find?_eq_none]
    intro name member
    rw [List.mem_singleton.mp member]
    simpa using known
  have none_call : ([call].map (·.name)).any (· == "call_tool") = false := by
    simpa using terminal
  unfold parseDecision
  simp only [listed, none_call, Bool.false_and, Bool.false_eq_true, if_false, List.isEmpty_nil, Bool.not_true, Bool.and_false,
    arguments, present, bind, Except.bind, read]

/-- The two ways that a list of tool calls parses. -/
theorem parseDecision_ok (parsed : parseDecision fromValue calls = .ok decision) :
    (calls ≠ [] ∧ (∀ call ∈ calls, call.name = "call_tool") ∧
        ∃ batch, calls.mapM parseCallToolArgs = .ok batch ∧ decision = .callTools batch) ∨
      ∃ call members, calls = [call] ∧ call.name ∈ TOOL_NAMES ∧ call.name ≠ "call_tool" ∧
        call.arguments = .object members ∧
          fromValue (.object (Json.insert "type" (.string call.name) members)) = .ok decision := by
  have some_call : calls ≠ [] := by
    rintro rfl
    cases parsed
  by_cases batch : ∀ call ∈ calls, call.name = "call_tool"
  · rw [parseDecision_batch some_call batch] at parsed
    cases arguments : calls.mapM parseCallToolArgs with
    | error error =>
      rw [arguments] at parsed
      cases parsed
    | ok toolCalls =>
      rw [arguments] at parsed
      cases parsed
      exact .inl ⟨some_call, batch, toolCalls, rfl, rfl⟩
  · obtain ⟨call, others, rfl⟩ := List.exists_cons_of_ne_nil some_call
    have terminal : ((call :: others).map (·.name)).any (· != "call_tool") = true := by
      push Not at batch
      obtain ⟨other, member, named⟩ := batch
      exact List.any_eq_true.mpr ⟨other.name, List.mem_map_of_mem member, bne_iff_ne.mpr named⟩
    unfold parseDecision at parsed
    simp only [terminal, Bool.and_true, Bool.true_and] at parsed
    split at parsed
    · cases parsed
    · rename_i known
      have named : call.name ∈ TOOL_NAMES := by
        simpa using List.find?_eq_none.mp known call.name List.mem_cons_self
      split at parsed
      · cases parsed
      · split at parsed
        · cases parsed
        · rename_i single
          obtain rfl : others = [] := by simpa using single
          have own : call.name ≠ "call_tool" := fun same => batch fun other member => by
            rw [List.mem_singleton.mp member, same]
          split at parsed
          · rename_i members arguments
            obtain ⟨-, -, parsed⟩ := bind_ok parsed
            split at parsed
            · rename_i read
              cases parsed
              exact .inr ⟨call, members, rfl, named, own, arguments, read⟩
            · cases parsed
          · cases parsed

theorem parseCallToolArgs_ok {call : VendorToolCall} {toolCall : ToolCall} (tool : call.name = "call_tool")
    (parsed : parseCallToolArgs call = .ok toolCall) : Carries call toolCall := by
  have text : ∀ {field : String} {members : List (String × Json)} {value : String},
      stringField call.name field members = .ok value → members.lookup field = some (.string value) := by
    intro field members value read
    unfold stringField at read
    split at read
    · rename_i found
      cases read
      exact found
    · cases read
  unfold parseCallToolArgs at parsed
  split at parsed
  · rename_i members arguments
    obtain ⟨⟨⟩, present, parsed⟩ := bind_ok parsed
    obtain ⟨name, named, parsed⟩ := bind_ok parsed
    obtain ⟨claimSeed, seeded, parsed⟩ := bind_ok parsed
    cases parsed
    refine ⟨tool, rfl, members, arguments, text named, ?_, text seeded⟩
    cases found : members.lookup "args" with
    | some args => rfl
    | none =>
      unfold requireFields at present
      split at present
      · cases present
      · rename_i all
        have there := List.find?_eq_none.mp all "args" (by decide)
        rw [found] at there
        exact (there rfl).elim
  · cases parsed

theorem parseCallToolArgs_encode {id : String} {call : ToolCall} (used : call.toolUseId.isSome = true) :
    parseCallToolArgs (encodeCall id call) = .ok call := by
  obtain ⟨name, args, claimSeed, toolUseId⟩ := call
  obtain ⟨useId, rfl⟩ := Option.isSome_iff_exists.mp used
  simp [parseCallToolArgs, encodeCall, requireFields, stringField, lookup_ne, List.lookup_cons_self, bind, Except.bind, pure,
    Except.pure]

theorem mapM_ok_map {α β ε : Type} {f : α → Except ε β} {g : β → α} {values : List β}
    (each : ∀ value ∈ values, f (g value) = .ok value) : (values.map g).mapM f = .ok values := by
  induction values with
  | nil => rfl
  | cons value values ih =>
    rw [List.forall_mem_cons] at each
    rw [List.map_cons, List.mapM_cons, each.1, ih each.2]
    rfl

theorem forall₂_of_mapM {α β ε : Type} {f : α → Except ε β} {related : α → β → Prop} {inputs : List α} {outputs : List β}
    (each : ∀ input ∈ inputs, ∀ output, f input = .ok output → related input output)
    (mapped : inputs.mapM f = .ok outputs) : List.Forall₂ related inputs outputs := by
  induction inputs generalizing outputs with
  | nil =>
    cases mapped
    exact .nil
  | cons input inputs ih =>
    rw [List.forall_mem_cons] at each
    rw [List.mapM_cons] at mapped
    obtain ⟨output, first, mapped⟩ := bind_ok mapped
    obtain ⟨rest, later, mapped⟩ := bind_ok mapped
    cases mapped
    exact .cons (each.1 output first) (ih each.2 later)

theorem lookup_insertMember (key : String) (value : Json) (members : List (String × Json)) (name : String) :
    (Json.insert key value members).lookup name = if name = key then some value else members.lookup name := by
  induction members with
  | nil =>
    unfold Json.insert
    split
    · rename_i same
      rw [same, List.lookup_cons_self]
    · rename_i apart
      rw [lookup_ne apart]
  | cons member members ih =>
    obtain ⟨other, held⟩ := member
    unfold Json.insert
    by_cases same : name = key
    · subst same
      rw [if_pos rfl] at ih ⊢
      split
      · exact List.lookup_cons_self
      · rename_i apart
        split
        · exact List.lookup_cons_self
        · rw [lookup_ne (Ne.symm apart), ih]
    · rw [if_neg same] at ih ⊢
      split
      · rename_i here
        rw [lookup_ne same, lookup_ne (here ▸ same)]
      · split
        · rw [lookup_ne same]
        · by_cases found : name = other
          · rw [found, List.lookup_cons_self, List.lookup_cons_self]
          · rw [lookup_ne found, lookup_ne found, ih]

/-- The fields that the parser asks for are among those that are written. -/
theorem requireFields_fields {decision : Decision} (terminal : ∀ calls, decision ≠ .callTools calls) :
    requireFields (tagOf decision) (requiredFields (tagOf decision)) (fieldsOf decision) = .ok () := by
  cases decision with
  | callTools calls => exact (terminal calls rfl).elim
  | _ =>
    simp [requireFields, requiredFields, tagOf, fieldsOf, Decision.toJson, lookup_ne, List.lookup_cons_self]

theorem parse_terminal (derived : Derived fromValue) (id : String) (fits : DecisionFits decision)
    (terminal : ∀ calls, decision ≠ .callTools calls) :
    parseDecision fromValue [⟨id, tagOf decision, .object (fieldsOf decision)⟩] = .ok decision := by
  have named : tagOf decision ∈ TOOL_NAMES ∧ tagOf decision ≠ "call_tool" := by
    cases decision with
    | callTools calls => exact (terminal calls rfl).elim
    | _ => simp [tagOf, TOOL_NAMES]
  refine parseDecision_single named.1 named.2 rfl (requireFields_fields terminal) (derived.reads _ _ ?_)
  unfold Decision.ofJson
  simp only [Json.members, Option.bind_eq_bind, Option.bind_some, Members.required, lookup_insertMember, if_true, Json.asStr]
  rw [← ofMembers_fields fits]
  apply ofMembers_congr
  intro name other
  rw [if_neg other]

theorem parse_encode (derived : Derived fromValue) (id : String) (fits : DecisionFits decision) :
    parseDecision fromValue (encode id decision) =
      if Encodable decision then .ok decision else .error (.unknownTool "call_tools") := by
  cases decision with
  | callTools calls =>
    by_cases batch : Batch calls
    · have used : ∀ call ∈ calls.map (encodeCall id), call.name = "call_tool" := by
        intro call member
        obtain ⟨toolCall, -, rfl⟩ := List.mem_map.mp member
        rfl
      rw [if_pos (show Encodable (.callTools calls) from batch),
        show encode id (.callTools calls) = calls.map (encodeCall id) from if_pos batch,
        parseDecision_batch (by simpa using batch.1) used,
        mapM_ok_map fun call member => parseCallToolArgs_encode (batch.2 call member)]
      rfl
    · rw [if_neg (show ¬ Encodable (.callTools calls) from batch),
        show encode id (.callTools calls) = [⟨id, tagOf (.callTools calls), .object (fieldsOf (.callTools calls))⟩] from
          if_neg batch]
      rfl
  | _ => exact (parse_terminal derived id fits nofun).trans (if_pos trivial).symm

/-- The parser inverts the encoding of every decision that has one, and what it accepts is a
batch of `call_tool` or one call of the tool that the variant goes by. -/
theorem parse_decision_exact (derived : Derived fromValue) :
    (∀ id decision, DecisionFits decision → parseDecision fromValue (encode id decision) =
        if Encodable decision then .ok decision else .error (.unknownTool "call_tools")) ∧
      (∀ calls decision, parseDecision fromValue calls = .ok decision →
        (calls ≠ [] ∧ ∃ batch, decision = .callTools batch ∧ List.Forall₂ Carries calls batch) ∨
          ∃ call, calls = [call] ∧ call.name ≠ "call_tool" ∧ tagOf decision = call.name) ∧
      ∀ calls, Malformed calls → ∃ error, parseDecision fromValue calls = .error error := by
  refine ⟨fun id decision fits => parse_encode derived id fits, ?_, ?_⟩
  · intro calls decision parsed
    rcases parseDecision_ok parsed with ⟨some_call, batch, toolCalls, mapped, rfl⟩ |
      ⟨call, members, rfl, -, terminal, -, read⟩
    · exact .inl ⟨some_call, toolCalls, rfl, forall₂_of_mapM
        (fun call member toolCall => parseCallToolArgs_ok (batch call member)) mapped⟩
    · have tagged := derived.tagged _ _ read
      rw [lookup_insertMember, if_pos rfl] at tagged
      exact .inr ⟨call, rfl, terminal, (Json.string.inj (Option.some.inj tagged)).symm⟩
  · intro calls malformed
    cases parsed : parseDecision fromValue calls with
    | error error => exact ⟨error, rfl⟩
    | ok decision =>
      rcases parseDecision_ok parsed with ⟨-, batch, toolCalls, mapped, -⟩ | ⟨call, members, rfl, known, terminal, arguments, -⟩
      · have carried := forall₂_of_mapM
          (fun call member toolCall => parseCallToolArgs_ok (batch call member)) mapped
        cases malformed with
        | unknown call member named =>
          rw [batch call member] at named
          exact (named (by decide)).elim
        | mixed call other member among tool terminal => exact (terminal (batch other among)).elim
        | repeated call member terminal several => exact (terminal (batch call member)).elim
        | noObject call member arguments =>
          obtain ⟨place, within, rfl⟩ := List.mem_iff_getElem.mp member
          obtain ⟨members, object, -⟩ := (carried.get within (carried.length_eq ▸ within)).members
          exact (arguments members object).elim
      · cases malformed with
        | unknown other member named =>
          rw [List.mem_singleton.mp member] at named
          exact (named known).elim
        | mixed one other member among tool apart =>
          rw [List.mem_singleton.mp member] at tool
          exact (terminal tool).elim
        | repeated other member apart several =>
          rw [List.length_singleton] at several
          omega
        | noObject other member none_ =>
          rw [List.mem_singleton.mp member] at none_
          exact (none_ members arguments).elim

/-- A reading that has what is relied on. -/
def derivedReading (value : Json) : Except String Decision :=
  match Decision.ofJson value with
  | some decision => .ok decision
  | none => .error "data did not match any variant of Decision"

theorem derivedReading_derived : Derived derivedReading where
  reads members decision read := by
    unfold derivedReading
    rw [read]
  tagged members decision read := by
    unfold derivedReading at read
    split at read
    · rename_i found
      cases read
      unfold Decision.ofJson at found
      simp only [Json.members, Option.bind_eq_bind, Option.bind_some, Members.required] at found
      obtain ⟨tag, there, read⟩ := Option.bind_eq_some_iff.mp found
      obtain ⟨value, here, text⟩ := Option.bind_eq_some_iff.mp there
      rw [here, ofMembers_tag read]
      unfold Json.asStr at text
      split at text
      · cases text
        rfl
      · cases text
    · cases read

/-- A search and a fetch, in one answer. -/
private def searchAndFetch : Decision :=
  .callTools [⟨"search", .object [("query", .string "rates")], "rates", some "toolu_1"⟩,
    ⟨"fetch", .object [("url", .string "a.test"), ("limit", .number (.posInt 3))], "", some "toolu_2"⟩]

theorem parse_decision_exact_batch : parseDecision derivedReading (encode "toolu_0" searchAndFetch) = .ok searchAndFetch :=
  ((parse_decision_exact derivedReading_derived).1 "toolu_0" searchAndFetch trivial).trans (if_pos (by decide))

/-- A batch of no calls has no encoding that is parsed. -/
theorem empty_batch_rejected :
    ¬ ∀ fromValue, Derived fromValue → ∀ id decision, DecisionFits decision →
        parseDecision fromValue (encode id decision) = .ok decision := by
  intro told
  have parsed := told derivedReading derivedReading_derived "toolu_1" (.callTools []) trivial
  have rejected : parseDecision derivedReading (encode "toolu_1" (.callTools [])) = .error (.unknownTool "call_tools") := rfl
  cases rejected.symm.trans parsed

end Encoding

end Coral.Proofs

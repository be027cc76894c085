import Coral.Node.CallTools
import Coral.Proofs.EvidenceNames

/-! A batch of calls in the in-process host: either no call is dispatched, or all of them
are, and the evidence of those that succeed is recorded in their order. A path that a
record has already keeps that record, whatever the next one of the path says. -/

namespace Coral.Proofs
open Coral.Library LawfulStorage

/-- Nothing shows where nothing is, and what was taken before a write is taken after it. -/
class Occupying (σ : Type) [AgentStorage σ] [LawfulStorage σ] : Prop where
  view_vacant : ∀ {storage : σ} {key : String}, vacant storage key → viewAt storage key = none
  put_taken : ∀ {storage after : σ} {key : String} {value : Content},
    AgentStorage.put storage key value = .ok after → ∀ other, vacant after other → vacant storage other
  created_taken : ∀ {storage after : σ} {key : String} {value : Content},
    AgentStorage.putIfAbsent storage key value = .ok (.created, after) →
      ∀ other, vacant after other → vacant storage other

private theorem vacant_of_insert {storage : MemoryStorage} {key other : String} {value : Content}
    (free : (storage.inner.insert key value).lookup other = none) : storage.inner.lookup other = none := by
  rw [lookup_insert] at free
  split at free
  · cases free
  · exact free

instance : Occupying MemoryStorage where
  view_vacant free := free
  put_taken := by
    intro storage after key value written other free
    cases written
    exact vacant_of_insert free
  created_taken := by
    intro storage after key value written other free
    change (if _ then _ else _) = _ at written
    split at written <;> cases written
    exact vacant_of_insert free

instance : Occupying LocalStorage where
  view_vacant := by
    intro storage key free
    change storage.tree.lookup (keyPath key) = none at free
    change storage.tree.read (keyPath key) = none
    unfold FileTree.read
    rw [free]
    rfl
  put_taken := by
    intro storage after key value written other free
    change storage.put key value = _ at written
    unfold LocalStorage.put at written
    split at written
    · rename_i tree wrote
      cases written
      change tree.lookup (keyPath other) = none at free
      rw [(FileTree.write_ok wrote).2] at free
      split at free
      · cases free
      · split at free
        · cases free
        · exact free
    · cases written
  created_taken := by
    intro storage after key value written other free
    change storage.putIfAbsent key value = _ at written
    unfold LocalStorage.putIfAbsent at written
    split at written
    · cases written
    · rename_i middle made
      split at written
      · rename_i tree created
        cases written
        change tree.lookup (keyPath other) = none at free
        rw [(FileTree.createNew_ok created).2] at free
        split at free
        · cases free
        · rw [(FileTree.createDirAll_ok made).2] at free
          split at free
          · cases free
          · exact free
      · cases written
      · cases written

section Calls

/-- The names that the registry does not know, in order. -/
def unknownNames (registry : ToolRegistry) (calls : List ToolCall) : List String :=
  (calls.filter fun call => !registry.contains call.name).map (·.name)

/-- What a call observed, if it succeeded. -/
def observedCall (answers : Nat → Except String Json) (called written : Clock) (call : ToolCall × Nat) : Option Observed :=
  match answers call.2 with
  | .ok result => some ⟨call.1.name, call.1.args, result, called call.2, call.1.claimSeed, written call.2⟩
  | .error _ => none

def failedCall (answers : Nat → Except String Json) (call : ToolCall × Nat) : Option ToolFailure :=
  match answers call.2 with
  | .ok _ => none
  | .error error => some ⟨call.1.name, call.1.args, error⟩

/-- What the successful calls of the batch observed, in order. -/
def observedCalls (answers : Nat → Except String Json) (called written : Clock) (calls : List ToolCall) : List Observed :=
  calls.zipIdx.filterMap (observedCall answers called written)

def failedCalls (answers : Nat → Except String Json) (calls : List ToolCall) : List ToolFailure :=
  calls.zipIdx.filterMap (failedCall answers)

end Calls

section Recording

variable {σ : Type} [AgentStorage σ] [LawfulStorage σ] {fs : AgentFs} {storage : σ}

/-- What is at the path after these calls: what was there before, or the first record of the
path. A later record of the same path is not kept. -/
def heldAfter (fs : AgentFs) (storage : σ) (history : List Observed) (target : Observed) : Option Content :=
  (viewAt storage (fs.key target.relpath)).or
    ((history.find? (·.relpath == target.relpath)).map fun first => .evidence first.record)

theorem heldAfter_concat (history : List Observed) (observed target : Observed) :
    heldAfter fs storage (history ++ [observed]) target = (heldAfter fs storage history target).or
      (if observed.relpath = target.relpath then some (.evidence observed.record) else none) := by
  unfold heldAfter
  rw [List.find?_append, Option.or_assoc]
  congr 1
  rw [List.find?_singleton]
  cases history.find? (·.relpath == target.relpath) with
  | none =>
    by_cases same : observed.relpath = target.relpath
    · simp [same]
    · simp [same]
  | some first => simp

/-- The path is held as expected, and is free where nothing is. -/
structure Holding (fs : AgentFs) (storage : σ) (target : Observed) (history : List Observed) (state : σ) : Prop where
  held : viewAt state (fs.key target.relpath) = heldAfter fs storage history target
  free : heldAfter fs storage history target = none → vacant state (fs.key target.relpath)

theorem Holding.step {target observed : Observed} {history : List Observed} {state next : σ} {more : List String}
    (holding : Holding fs storage target history state)
    (stepped : (recordings fs).step state observed = some (next, more)) :
    Holding fs storage target (history ++ [observed]) next := by
  obtain ⟨entered, frees⟩ := recordings_entered stepped
  by_cases here : observed.relpath = target.relpath
  · cases entered with
    | known taken same =>
      have there : heldAfter fs storage history target ≠ none := by
        intro bare
        rw [here] at taken
        exact taken (holding.free bare)
      obtain ⟨content, found⟩ := Option.ne_none_iff_exists'.mp there
      have still : heldAfter fs storage (history ++ [observed]) target = some content := by
        rw [heldAfter_concat, found, Option.some_or]
      refine ⟨?_, ?_⟩
      · rw [still, ← found, ← holding.held, same]
      · rw [still]
        intro bare
        cases bare
    | new absent written tailed elsewhere =>
      rw [here] at absent written
      have new : heldAfter fs storage (history ++ [observed]) target = some (.evidence observed.record) := by
        rw [heldAfter_concat, ← holding.held, if_pos here, absent, Option.none_or]
      refine ⟨?_, ?_⟩
      · rw [new, written]
      · rw [new]
        intro bare
        cases bare
  · have unchanged : heldAfter fs storage (history ++ [observed]) target = heldAfter fs storage history target := by
      rw [heldAfter_concat, if_neg here, Option.or_none]
    refine ⟨?_, ?_⟩
    · rw [unchanged, ← holding.held]
      exact entered.other (Ne.symm here)
    · rw [unchanged]
      exact fun bare => frees target (Ne.symm here) (holding.free bare)

/-- What the run of the calls leaves at every path that was free or a file's. -/
theorem recordings_run {history : List Observed} {final : σ} {paths : List String}
    (ran : (recordings fs).run storage history = some (final, paths)) :
    paths = history.map Observed.relpath ∧ ∀ target : Observed,
      (vacant storage (fs.key target.relpath) ∨ (viewAt storage (fs.key target.relpath)).isSome = true) →
        viewAt final (fs.key target.relpath) = heldAfter fs storage history target := by
  have whole : ∀ target : Observed,
      (vacant storage (fs.key target.relpath) ∨ (viewAt storage (fs.key target.relpath)).isSome = true) →
        Holding fs storage target history final := by
    intro target plain
    apply (recordings fs).history_invariant (fun history final _ => Holding fs storage target history final) _ _ ran
    · refine ⟨(Option.or_none).symm, ?_⟩
      intro none_
      rcases plain with free | file
      · exact free
      · rw [heldAfter, List.find?_nil, Option.map_none, Option.or_none] at none_
        rw [none_] at file
        cases file
    · exact fun history middle paths observed next more holding stepped => holding.step stepped
  refine ⟨?_, fun target plain => (whole target plain).held⟩
  apply (recordings fs).history_invariant (fun history _ paths => paths = history.map Observed.relpath) rfl _ ran
  intro history middle paths observed next more listed stepped
  rw [listed, (recordings_step.mp stepped).1, List.map_append]
  rfl

section Taken

variable [ExclusiveStorage σ] [Occupying σ] {target : Observed}

/-- A path that is taken, whatever by, stays as it is under every call. -/
theorem recordings_taken {history : List Observed} {final : σ} {paths : List String}
    (taken : ¬ vacant storage (fs.key target.relpath)) (ran : (recordings fs).run storage history = some (final, paths)) :
    viewAt final (fs.key target.relpath) = viewAt storage (fs.key target.relpath) := by
  have held : viewAt final (fs.key target.relpath) = viewAt storage (fs.key target.relpath) ∧
      ¬ vacant final (fs.key target.relpath) := by
    apply (recordings fs).run_invariant (fun state => viewAt state (fs.key target.relpath) =
      viewAt storage (fs.key target.relpath) ∧ ¬ vacant state (fs.key target.relpath)) ⟨rfl, taken⟩ _ ran
    intro state observed next more held stepped
    obtain ⟨same, occupied⟩ := held
    obtain ⟨entered, -⟩ := recordings_entered stepped
    obtain ⟨-, outcome⟩ := recordEvidence_ok (recordings_step.mp stepped).2
    rcases outcome with existed | ⟨middle, created, followed⟩
    · refine ⟨?_, fun free => occupied (ExclusiveStorage.existed_vacant existed _ free)⟩
      rw [← same]
      exact congrFun (putIfAbsent_existed state next _ _ existed) _
    · obtain ⟨value, put⟩ := appendToTail_put followed
      have apart : observed.relpath ≠ target.relpath := by
        intro here
        apply occupied
        rw [← here]
        exact ExclusiveStorage.created_vacant created
      refine ⟨(entered.other (Ne.symm apart)).trans same, fun free => occupied ?_⟩
      exact Occupying.created_taken created _ (Occupying.put_taken put _ free)
  exact held.1

/-- The path is free for the record, or holds one with its id. -/
def Admits (fs : AgentFs) (storage : σ) (observed : Observed) : Prop :=
  vacant storage (fs.key observed.relpath) ∨ Kept fs storage observed.relpath observed

/-- Each call finds its own record exactly when no two records of one path differ, and what is
at the paths already is no other record. -/
theorem recordings_kept_iff {history : List Observed} {final : σ} {paths : List String}
    (ran : (recordings fs).run storage history = some (final, paths)) :
    (∀ observed ∈ history, Kept fs final observed.relpath observed) ↔
      Apart history ∧ ∀ observed ∈ history, Admits fs storage observed := by
  constructor
  · intro kept
    refine ⟨?_, ?_⟩
    · intro first member second other same
      obtain ⟨record, found, id⟩ := kept first member
      obtain ⟨record', found', id'⟩ := kept second other
      rw [← same, found] at found'
      cases found'
      rw [← id, ← id']
    · intro observed member
      by_cases free : vacant storage (fs.key observed.relpath)
      · exact .inl free
      · obtain ⟨record, found, id⟩ := kept observed member
        rw [recordings_taken free ran] at found
        exact .inr ⟨record, found, id⟩
  · rintro ⟨apart, admitted⟩ observed member
    have held := (recordings_run ran).2 observed
    unfold heldAfter at held
    rcases admitted observed member with free | ⟨record, found, id⟩
    · obtain ⟨first, earliest⟩ : ∃ first, history.find? (·.relpath == observed.relpath) = some first := by
        apply Option.isSome_iff_exists.mp
        rw [List.find?_isSome]
        exact ⟨observed, member, beq_self_eq_true _⟩
      have shared : first.relpath = observed.relpath := by simpa using List.find?_some earliest
      have same := apart first (List.mem_of_find?_eq_some earliest) observed member shared
      rw [earliest, Occupying.view_vacant free] at held
      exact ⟨first.record, held (.inl free), same⟩
    · rw [found] at held
      exact ⟨record, held (.inr rfl), id⟩

end Taken

section Results

variable {answers : Nat → Except String Json} {called written : Clock}

/-- What a call that is dispatched comes to. -/
def callResult (answers : Nat → Except String Json) (called : Clock) (call : ToolCall × Nat) : CallResult :=
  ⟨call.2, call.1, (answers call.2).map fun result => .new call.1.name call.1.args result (called call.2)⟩

omit [LawfulStorage σ] in
/-- The store as the loop over the results leaves it is that of the calls that succeeded. -/
theorem recordResults_ok {calls : List (ToolCall × Nat)} {storage after : σ} {failures : List ToolFailure}
    {recorded : List String}
    (ended : recordResults fs written (calls.map (callResult answers called)) storage = (.ok (failures, recorded), after)) :
    failures = calls.filterMap (failedCall answers) ∧
      (recordings fs).run storage (calls.filterMap (observedCall answers called written)) = some (after, recorded) := by
  induction calls generalizing storage failures recorded with
  | nil =>
    cases ended
    exact ⟨rfl, rfl⟩
  | cons call calls ih =>
    rw [List.map_cons, callResult] at ended
    rw [List.filterMap_cons, List.filterMap_cons]
    unfold failedCall observedCall
    cases answer : answers call.2 with
    | ok result =>
      rw [answer, Except.map, recordResults] at ended
      simp only
      split at ended
      · cases ended
      · rename_i path middle wrote
        split at ended
        · cases ended
        · rename_i more paths final continued
          cases ended
          obtain ⟨rest, ran⟩ := ih continued
          obtain ⟨rfl, -⟩ := recordEvidence_ok wrote
          refine ⟨rest, (recordings fs).run_cons.mpr ⟨middle, [_], paths, ?_, ran, rfl⟩⟩
          exact recordings_step.mpr ⟨rfl, wrote⟩
    | error error =>
      rw [answer, Except.map, recordResults] at ended
      simp only
      split at ended
      · cases ended
      · rename_i more paths final continued
        cases ended
        obtain ⟨rest, ran⟩ := ih continued
        exact ⟨congrArg _ rest, ran⟩

omit [LawfulStorage σ] in
/-- It ends early only where the store refuses a record, and the ones before that stay. -/
theorem recordResults_error {calls : List (ToolCall × Nat)} {storage after : σ} {error : FsError}
    (ended : recordResults fs written (calls.map (callResult answers called)) storage = (.error error, after)) :
    ∃ before observed rest middle paths,
      calls.filterMap (observedCall answers called written) = before ++ observed :: rest ∧
      (recordings fs).run storage before = some (middle, paths) ∧
      fs.recordEvidence observed.now observed.record observed.slugSeed middle = (.error error, after) := by
  induction calls generalizing storage with
  | nil => cases ended
  | cons call calls ih =>
    rw [List.map_cons, callResult] at ended
    rw [List.filterMap_cons]
    cases answer : answers call.2 with
    | ok result =>
      have observed : observedCall answers called written call =
          some ⟨call.1.name, call.1.args, result, called call.2, call.1.claimSeed, written call.2⟩ := by
        unfold observedCall
        rw [answer]
      rw [answer, Except.map, recordResults] at ended
      rw [observed]
      simp only
      split at ended
      · rename_i refused middle wrote
        cases ended
        exact ⟨[], _, _, storage, [], rfl, rfl, wrote⟩
      · rename_i path middle wrote
        split at ended
        · rename_i other final continued
          cases ended
          obtain ⟨before, next, rest, last, paths, whole, ran, refused⟩ := ih continued
          obtain ⟨rfl, -⟩ := recordEvidence_ok wrote
          let first : Observed := ⟨call.1.name, call.1.args, result, called call.2, call.1.claimSeed, written call.2⟩
          have begun : (recordings fs).run storage (first :: before) = some (last, first.relpath :: paths) :=
            (recordings fs).run_cons.mpr ⟨middle, [first.relpath], paths, recordings_step.mpr ⟨rfl, wrote⟩, ran, rfl⟩
          exact ⟨first :: before, next, rest, last, _, congrArg _ whole, begun, refused⟩
        · cases ended
    | error failure =>
      have none_ : observedCall answers called written call = none := by
        unfold observedCall
        rw [answer]
      rw [answer, Except.map, recordResults] at ended
      rw [none_]
      simp only
      split at ended
      · rename_i other final continued
        cases ended
        exact ih continued
      · cases ended

omit [LawfulStorage σ] in
theorem executeCallTools_known {registry : ToolRegistry} {calls : List ToolCall} (known : unknownNames registry calls = [])
    (storage : σ) :
    executeCallTools fs registry answers called written calls storage =
      match recordResults fs written (calls.zipIdx.map (callResult answers called)) storage with
      | (.error error, after) => (calls.map fun call => (call.name, call.args), .error error, after)
      | (.ok (failures, recorded), after) =>
        (calls.map fun call => (call.name, call.args), .ok (batchOutcome failures recorded), after) := by
  have results : (calls.zipIdx.map fun call => (⟨call.2, call.1,
        registry.callAnswered call.1.name call.1.args (answers call.2) (called call.2)⟩ : CallResult)) =
      calls.zipIdx.map (callResult answers called) := by
    apply List.map_congr_left
    intro call member
    have among : call.1 ∈ calls := by
      rw [← List.zipIdx_map_fst 0 calls]
      exact List.mem_map_of_mem member
    have listed : registry.contains call.1.name = true := by
      by_contra missing
      have reported : call.1.name ∈ unknownNames registry calls := by
        apply List.mem_map_of_mem
        rw [List.mem_filter]
        exact ⟨among, by simpa using missing⟩
      rw [known] at reported
      cases reported
    obtain ⟨tool, registered⟩ := Option.isSome_iff_exists.mp listed
    unfold callResult ToolRegistry.callAnswered
    simp only [registered]
  have empty : ((calls.filter fun call => !registry.contains call.name).map (·.name)).isEmpty = true := by
    unfold unknownNames at known
    rw [known]
    rfl
  unfold executeCallTools
  rw [results]
  exact if_pos empty

end Results

end Recording

section Batch

variable {σ : Type} [AgentStorage σ] [LawfulStorage σ] {fs : AgentFs} {registry : ToolRegistry}
  {answers : Nat → Except String Json} {called written : Clock} {calls : List ToolCall} {storage : σ}

omit [LawfulStorage σ] in
/-- A batch with an unknown name is kept back whole. -/
theorem executeCallTools_unknown (some_unknown : unknownNames registry calls ≠ []) :
    executeCallTools fs registry answers called written calls storage =
      ([], .ok (.needsCorrection ("call_tools: no tool registered under name(s) " ++
        debugStrings (unknownNames registry calls))), storage) := by
  unfold executeCallTools
  change (if (unknownNames registry calls).isEmpty = true then _ else _) = _
  rw [if_neg (by simpa using some_unknown)]
  rfl

omit [LawfulStorage σ] in
/-- What a batch of known names comes to that the store does not cut short. -/
theorem executeCallTools_ok (known : unknownNames registry calls = []) {dispatched : List (String × Json)}
    {outcome : StepOutcome} {after : σ}
    (ended : executeCallTools fs registry answers called written calls storage = (dispatched, .ok outcome, after)) :
    dispatched = calls.map (fun call => (call.name, call.args)) ∧
      ∃ recorded, (recordings fs).run storage (observedCalls answers called written calls) = some (after, recorded) ∧
        outcome = batchOutcome (failedCalls answers calls) recorded := by
  rw [executeCallTools_known known] at ended
  split at ended
  · cases ended
  · rename_i failures recorded final stored
    cases ended
    obtain ⟨rfl, ran⟩ := recordResults_ok stored
    exact ⟨rfl, recorded, ran, rfl⟩

omit [LawfulStorage σ] in
/-- Only a store that refuses a record ends a batch early; every call is dispatched even so. -/
theorem executeCallTools_error {dispatched : List (String × Json)} {error : FsError} {after : σ}
    (ended : executeCallTools fs registry answers called written calls storage = (dispatched, .error error, after)) :
    dispatched = calls.map (fun call => (call.name, call.args)) ∧
      ∃ before observed rest middle paths, observedCalls answers called written calls = before ++ observed :: rest ∧
        (recordings fs).run storage before = some (middle, paths) ∧
        fs.recordEvidence observed.now observed.record observed.slugSeed middle = (.error error, after) := by
  by_cases known : unknownNames registry calls = []
  · rw [executeCallTools_known known] at ended
    split at ended
    · rename_i refused final stored
      cases ended
      exact ⟨rfl, recordResults_error stored⟩
    · cases ended
  · rw [executeCallTools_unknown known] at ended
    cases ended

variable (fs registry answers called written calls storage) in
/-- What a batch is to come to: nothing is done for one with an unknown name, and of any other
every call is dispatched, every success is on file under its own seed, and all are told. -/
structure Consistent (dispatched : List (String × Json)) (outcome : StepOutcome) (after : σ) : Prop where
  refused : unknownNames registry calls ≠ [] → dispatched = [] ∧ after = storage ∧
    outcome = .needsCorrection ("call_tools: no tool registered under name(s) " ++ debugStrings (unknownNames registry calls))
  served : unknownNames registry calls = [] → dispatched = calls.map fun call => (call.name, call.args)
  recorded : unknownNames registry calls = [] →
    (recordings fs).run storage (observedCalls answers called written calls) =
        some (after, (observedCalls answers called written calls).map Observed.relpath) ∧
      ∀ observed ∈ observedCalls answers called written calls, Kept fs after observed.relpath observed
  told : unknownNames registry calls = [] → outcome =
    if failedCalls answers calls = [] then
      .ok (toString (observedCalls answers called written calls).length ++ " tool call(s) succeeded; cite this evidence: " ++
        String.intercalate ", " ((observedCalls answers called written calls).map Observed.relpath))
    else .toolError (failedCalls answers calls)

/-- A batch that the store does not cut short is consistent exactly when no success finds its
path taken by another record, be it from before or of the same batch. -/
theorem call_tools_consistent_iff [ExclusiveStorage σ] [Occupying σ] {dispatched : List (String × Json)}
    {outcome : StepOutcome} {after : σ}
    (ended : executeCallTools fs registry answers called written calls storage = (dispatched, .ok outcome, after)) :
    Consistent fs registry answers called written calls storage dispatched outcome after ↔
      unknownNames registry calls ≠ [] ∨ Apart (observedCalls answers called written calls) ∧
        ∀ observed ∈ observedCalls answers called written calls, Admits fs storage observed := by
  by_cases known : unknownNames registry calls = []
  · obtain ⟨rfl, recorded, ran, rfl⟩ := executeCallTools_ok known ended
    have listed := (recordings_run ran).1
    rw [← recordings_kept_iff ran]
    constructor
    · exact fun consistent => .inr (consistent.recorded known).2
    · rintro (unknown | kept)
      · exact (unknown known).elim
      · refine ⟨fun unknown => (unknown known).elim, fun _ => rfl, fun _ => ⟨listed ▸ ran, kept⟩, fun _ => ?_⟩
        unfold batchOutcome
        rw [listed, List.length_map]
        simp only [List.isEmpty_iff]
  · rw [executeCallTools_unknown known] at ended
    cases ended
    refine iff_of_true ⟨fun _ => ⟨rfl, rfl, rfl⟩, ?_, ?_, ?_⟩ (.inl known)
    · exact fun none_ => (known none_).elim
    · exact fun none_ => (known none_).elim
    · exact fun none_ => (known none_).elim

end Batch

section Samples

/-- One tool, which `answers` speak for. -/
private def oneTool : ToolRegistry := ⟨(∅ : AList fun _ : String => Tool).insert "t" fun _ => .ok .null, ∅⟩

private def unnamedCall : ToolCall := ⟨"t", .object [], "", none⟩

/-- Memory cuts no batch short. -/
private theorem memory_batch (answers : Nat → Except String Json) (clock : Clock) (calls : List ToolCall) :
    ∃ dispatched outcome after, executeCallTools ⟨""⟩ oneTool answers clock clock calls (⟨∅⟩ : MemoryStorage) =
      (dispatched, .ok outcome, after) := by
  cases ended : executeCallTools ⟨""⟩ oneTool answers clock clock calls (⟨∅⟩ : MemoryStorage) with
  | mk dispatched rest =>
    obtain ⟨result, after⟩ := rest
    cases result with
    | ok outcome => exact ⟨dispatched, outcome, after, rfl⟩
    | error error =>
      obtain ⟨-, before, observed, rest, middle, paths, -, -, refused⟩ := executeCallTools_error ended
      obtain ⟨final, more, ran⟩ := memory_recordings ⟨""⟩ middle [observed]
      obtain ⟨next, first, others, stepped, -⟩ := (recordings ⟨""⟩).run_cons.mp ran
      rw [(recordings_step.mp stepped).2] at refused
      cases refused

theorem call_tools_consistent_iff_busy :
    ∃ dispatched outcome after,
      Consistent ⟨""⟩ oneTool (fun place => if place = 1 then .error "busy" else .ok (.number (.posInt place))) (fun _ => ⟨0⟩)
        (fun _ => ⟨0⟩) [unnamedCall, unnamedCall, { unnamedCall with claimSeed := "Third try" }] (⟨∅⟩ : MemoryStorage)
        dispatched outcome after ∧
      outcome = .toolError [⟨"t", .object [], "busy"⟩] := by
  obtain ⟨dispatched, outcome, after, ended⟩ := memory_batch
    (fun place => if place = 1 then .error "busy" else .ok (.number (.posInt place))) (fun _ => ⟨0⟩)
    [unnamedCall, unnamedCall, { unnamedCall with claimSeed := "Third try" }]
  have consistent := (call_tools_consistent_iff ended).mpr (.inr ⟨by decide +kernel, fun _ _ => .inl rfl⟩)
  exact ⟨dispatched, outcome, after, consistent, consistent.told (by decide +kernel)⟩

/-- The ids of the two answers both begin with 1af04683. -/
theorem second_call_lost :
    ¬ ∀ (fs : AgentFs) (registry : ToolRegistry) (answers : Nat → Except String Json) (called written : Clock)
        (calls : List ToolCall) (storage after : MemoryStorage) (dispatched : List (String × Json)) (outcome : StepOutcome),
        executeCallTools fs registry answers called written calls storage = (dispatched, .ok outcome, after) →
          Consistent fs registry answers called written calls storage dispatched outcome after := by
  intro consistent
  obtain ⟨dispatched, outcome, after, ended⟩ := memory_batch
    (fun place => .ok (.number (.posInt (if place = 0 then 7005 else 148197)))) (fun _ => ⟨0⟩) [unnamedCall, unnamedCall]
  obtain ⟨ran, kept⟩ := (consistent _ _ _ _ _ _ _ _ _ _ ended).recorded (by decide +kernel)
  have first : (answered 7005).relpath = "evidence/1af04683.json" := by decide +kernel
  have second : (answered 148197).relpath = "evidence/1af04683.json" := by decide +kernel
  have other : (answered 7005).record.id ≠ (answered 148197).record.id := by decide +kernel
  have apart := ((recordings_kept_iff ran).mp kept).1
  exact other (apart (answered 7005) List.mem_cons_self (answered 148197)
    (List.mem_cons_of_mem _ List.mem_cons_self) (first.trans second.symm))

end Samples

end Coral.Proofs

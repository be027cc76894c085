import Coral.Library.Machine
import Coral.Proofs.NotesIndex

/-! The telemetry on the status note. It looks at what the steps of a cycle asked for and at
one way to spell the path; what is written is decided below, by the names of the path. -/

namespace Coral.Proofs
open Coral.Library

def statusNoteName : Name := ⟨STATUS_NOTE, by decide⟩

section Spelling

/-- The components of a path, but for a leading one that is no name. -/
private def named (raw : String) : List Component := (segments raw).filterMap fun part =>
  if part = ".." then some .parentDir else (Name.ofText part).map .normal

private theorem plainParts_lead {raw : String} (relative : ∀ rest, segments raw ≠ "" :: rest) :
    plainParts (components raw) = plainParts (named raw) := by
  unfold components
  dsimp only
  split
  · rename_i rest same
    exact (relative _ same).elim
  · rfl
  · rfl

/-- A path that is spelled plainly but for `./` in front has the names of the status note. -/
theorem plainParts_status {chars : List Char} (trimmed : dropDotSlash chars = STATUS_NOTE_PATH.toList) :
    plainParts (components (String.ofList chars)) = some [⟨"notes", by decide⟩, statusNoteName] := by
  have spelled : named (String.ofList chars) = [.normal ⟨"notes", by decide⟩, .normal statusNoteName] ∧
      ∀ rest, segments (String.ofList chars) ≠ "" :: rest := by
    induction chars using dropDotSlash.induct with
    | case1 rest ih =>
      rw [dropDotSlash] at trimmed
      obtain ⟨names, -⟩ := ih trimmed
      have split : segments (String.ofList ('.' :: '/' :: rest)) = "." :: segments (String.ofList rest) := by
        rw [show String.ofList ('.' :: '/' :: rest) = "." ++ "/" ++ String.ofList rest from by
          apply String.toList_inj.mp
          simp, segments_append]
        rfl
      refine ⟨?_, ?_⟩
      · unfold named
        rw [split, List.filterMap_cons_none (by decide)]
        exact names
      · intro other same
        rw [split] at same
        exact absurd (List.cons.inj same).1 (by decide)
    | case2 chars other =>
      have same : chars = STATUS_NOTE_PATH.toList := by
        rwa [dropDotSlash] at trimmed
        exact other
      rw [same, String.ofList_toList]
      refine ⟨by decide, fun rest same => ?_⟩
      rw [show segments STATUS_NOTE_PATH = ["notes", STATUS_NOTE] by decide] at same
      exact absurd (List.cons.inj same).1 (by decide)
  rw [plainParts_lead spelled.2, spelled.1]
  rfl

end Spelling

/-- The paths that a batch writes to. -/
def writtenPaths (ops : List FsOp) : List String := ops.filterMap fun
  | .writeFile path _ => some path
  | .deleteFile _ => none

/-- The batches among the decisions. -/
def batchesOf (decisions : List Decision) : List (List FsOp) := decisions.filterMap fun
  | .rewriteFs ops => some ops
  | _ => none

/-- Every operation of the batch names a note. -/
def Accepts (ops : List FsOp) : Prop := ∀ op ∈ ops, (notePath op.path).isSome = true

instance (ops : List FsOp) : Decidable (Accepts ops) := inferInstanceAs (Decidable (∀ op ∈ ops, _))

/-- The batch writes the status note under the spelling that the telemetry knows. -/
def Plainly (ops : List FsOp) : Prop := ∃ path ∈ writtenPaths ops, isStatusNotePath path = true

/-- The batch writes it under another one. -/
def Otherwise (ops : List FsOp) : Prop :=
  ∃ path ∈ writtenPaths ops, isStatusNotePath path = false ∧ notePath path = some [statusNoteName]

instance (ops : List FsOp) : Decidable (Plainly ops) := inferInstanceAs (Decidable (∃ path ∈ _, _))

instance (ops : List FsOp) : Decidable (Otherwise ops) := inferInstanceAs (Decidable (∃ path ∈ _, _))

/-- The step is an accepted batch that writes the status note's key. -/
def Refreshes (fs : AgentFs) (step : Step) : Prop :=
  step.observation.ok = true ∧ ∃ ops, step.action = .rewriteFs ops ∧
    ∃ path ∈ writtenPaths ops, fs.resolveNotesKey path = .ok (fs.key STATUS_NOTE_PATH)

/-- Some accepted batch spells the path plainly; or no batch misleads the telemetry, or two do
in both ways. -/
def Telling (batches : List (List FsOp)) : Prop :=
  (∃ ops ∈ batches, Accepts ops ∧ Plainly ops) ∨
    ((∃ ops ∈ batches, ¬ Accepts ops ∧ Plainly ops) ↔ ∃ ops ∈ batches, Accepts ops ∧ Otherwise ops)

section Keys

theorem notePath_status {path : String} (plain : isStatusNotePath path = true) :
    notePath path = some [statusNoteName] := by
  have trimmed : dropDotSlash path.toList = STATUS_NOTE_PATH.toList := by
    have same := eq_of_beq plain
    rw [← same, trimStartDotSlash, String.toList_ofList]
  have parts := plainParts_status trimmed
  rw [String.ofList_toList] at parts
  unfold notePath
  rw [parts]
  decide

theorem resolveNotesKey_status {fs : AgentFs} {path : String} :
    fs.resolveNotesKey path = .ok (fs.key STATUS_NOTE_PATH) ↔ notePath path = some [statusNoteName] := by
  unfold AgentFs.resolveNotesKey notePath
  cases plainParts (components path) with
  | none => simp
  | some parts =>
    cases parts with
    | nil => simp
    | cons first rest =>
      dsimp only
      by_cases inside : first.text = "notes" ∧ rest ≠ []
      · rw [if_pos inside]
        have key : fs.key ("notes/" ++ joinPath rest) = fs.key STATUS_NOTE_PATH ↔ rest = [statusNoteName] := by
          unfold AgentFs.key
          rw [String.append_right_inj, show STATUS_NOTE_PATH = "notes/" ++ joinPath [statusNoteName] from rfl,
            String.append_right_inj, joinPath_injective.eq_iff]
        rw [Except.ok.injEq, key]
        constructor
        · rintro rfl
          rw [if_pos ⟨inside.1, inside.2, by decide⟩]
        · intro same
          split at same
          · exact Option.some.inj same
          · cases same
      · rw [if_neg inside, if_neg fun all => inside ⟨all.1, all.2.1⟩]
        simp

end Keys

section Cycle

variable {σ : Type} [AgentStorage σ]

/-- A cycle's steps, each with what it observed. -/
def sessionSteps (fs : AgentFs) (render : Content → String)
    (tools : AgentFs → List ToolCall → σ → Except FsError StepOutcome × σ) :
    Machine (σ × Session) (Decision × Clock) Unit :=
  ⟨fun (storage, session) (action, clock) =>
    match executeStep fs render tools clock action storage with
    | some (.ok outcome, after) => some ((after, session.push action outcome.observation), [])
    | _ => none⟩

theorem rewriteFs_accepted {fs : AgentFs} {clock : Clock} {ops : List FsOp} {storage after : σ} {outcome : StepOutcome}
    (executed : rewriteFs fs clock ops storage = (.ok outcome, after)) :
    outcome.observation.ok = true ↔ Accepts ops := by
  unfold rewriteFs AgentFs.applyOps at executed
  cases planned : fs.planOps ops with
  | error error =>
    rw [planned] at executed
    obtain ⟨fault, op, member, unnamed⟩ := planOps_error planned
    simp only [correcting, fault, if_true, Prod.mk.injEq, Except.ok.injEq] at executed
    rw [← executed.1]
    refine iff_of_false Bool.false_ne_true fun accepted => ?_
    have here := accepted op member
    rw [unnamed] at here
    cases here
  | ok steps =>
    rw [planned] at executed
    simp only at executed
    split at executed
    · cases executed
      refine iff_of_true rfl fun op member => ?_
      obtain ⟨step, -, path, named, -⟩ := forall₂_mem_left (planOps_ok planned) member
      rw [named]
      rfl
    · rename_i error final failed
      simp only [correcting, executeOps_fault failed] at executed
      cases executed

/-- Along a cycle each decision is a step, and a batch's observation says if it was accepted. -/
theorem session_steps {fs : AgentFs} {render : Content → String}
    {tools : AgentFs → List ToolCall → σ → Except FsError StepOutcome × σ} {storage : σ} {seed : Seed}
    {events : List (Decision × Clock)} {final : σ × Session} {outputs : List Unit}
    (ran : (sessionSteps fs render tools).run (storage, .new seed) events = some (final, outputs)) :
    final.2.steps.map (·.action) = events.map (·.1) ∧
      ∀ step ∈ final.2.steps, ∀ ops, step.action = .rewriteFs ops → (step.observation.ok = true ↔ Accepts ops) := by
  apply (sessionSteps fs render tools).history_invariant (fun events final _ =>
    final.2.steps.map (·.action) = events.map (·.1) ∧
      ∀ step ∈ final.2.steps, ∀ ops, step.action = .rewriteFs ops → (step.observation.ok = true ↔ Accepts ops))
    ⟨rfl, fun step member => by cases member⟩ _ ran
  intro events state _ event next more ⟨actions, told⟩ stepped
  obtain ⟨action, clock⟩ := event
  obtain ⟨before, session⟩ := state
  unfold sessionSteps at stepped
  dsimp only at stepped
  split at stepped
  · rename_i outcome after executed
    cases stepped
    refine ⟨by simpa [Session.push] using actions, ?_⟩
    intro step member ops same
    rcases List.mem_append.mp member with earlier | last
    · exact told step earlier ops same
    · rw [List.mem_singleton.mp last] at same ⊢
      dsimp only at same
      rw [same] at executed
      exact rewriteFs_accepted (Option.some.inj executed)
  · cases stepped

variable {decisions : List Decision} {session : Session}

private theorem mem_batches {ops : List FsOp} (actions : session.steps.map (·.action) = decisions) :
    ops ∈ batchesOf decisions ↔ ∃ step ∈ session.steps, step.action = .rewriteFs ops := by
  unfold batchesOf
  rw [← actions, List.mem_filterMap]
  constructor
  · intro ⟨action, member, same⟩
    obtain ⟨step, here, rfl⟩ := List.mem_map.mp member
    refine ⟨step, here, ?_⟩
    split at same
    · rename_i batch rewritten
      cases same
      exact rewritten
    · cases same
  · intro ⟨step, here, same⟩
    exact ⟨step.action, List.mem_map_of_mem here, by rw [same]⟩

private theorem plainly_iff {ops : List FsOp} : ops.any (fun
    | .writeFile path _ => isStatusNotePath path
    | .deleteFile _ => false) = true ↔ Plainly ops := by
  unfold Plainly writtenPaths
  rw [List.any_eq_true]
  constructor
  · intro ⟨op, member, plain⟩
    cases op with
    | writeFile path content => exact ⟨path, List.mem_filterMap.mpr ⟨_, member, rfl⟩, plain⟩
    | deleteFile path => cases plain
  · intro ⟨path, written, plain⟩
    obtain ⟨op, member, same⟩ := List.mem_filterMap.mp written
    cases op with
    | writeFile other content =>
      cases same
      exact ⟨_, member, plain⟩
    | deleteFile other => cases same

theorem statusNoteWritten_iff (actions : session.steps.map (·.action) = decisions) :
    statusNoteWritten session = true ↔ ∃ ops ∈ batchesOf decisions, Plainly ops := by
  unfold statusNoteWritten
  rw [List.any_eq_true]
  constructor
  · intro ⟨step, member, asked⟩
    split at asked
    · rename_i ops same
      exact ⟨ops, (mem_batches actions).mpr ⟨step, member, same⟩, plainly_iff.mp asked⟩
    · cases asked
  · intro ⟨ops, member, plain⟩
    obtain ⟨step, here, same⟩ := (mem_batches actions).mp member
    refine ⟨step, here, ?_⟩
    rw [same]
    exact plainly_iff.mpr plain

theorem refreshed_iff {fs : AgentFs} (actions : session.steps.map (·.action) = decisions)
    (told : ∀ step ∈ session.steps, ∀ ops, step.action = .rewriteFs ops → (step.observation.ok = true ↔ Accepts ops)) :
    (∃ step ∈ session.steps, Refreshes fs step) ↔
      ∃ ops ∈ batchesOf decisions, Accepts ops ∧ (Plainly ops ∨ Otherwise ops) := by
  constructor
  · intro ⟨step, member, seen, ops, same, path, written, key⟩
    refine ⟨ops, (mem_batches actions).mpr ⟨step, member, same⟩, (told step member ops same).mp seen, ?_⟩
    cases plain : isStatusNotePath path with
    | true => exact .inl ⟨path, written, plain⟩
    | false => exact .inr ⟨path, written, plain, resolveNotesKey_status.mp key⟩
  · intro ⟨ops, member, accepted, spelled⟩
    obtain ⟨step, here, same⟩ := (mem_batches actions).mp member
    refine ⟨step, here, (told step here ops same).mpr accepted, ops, same, ?_⟩
    rcases spelled with ⟨path, written, plain⟩ | ⟨path, written, -, named⟩
    · exact ⟨path, written, resolveNotesKey_status.mpr (notePath_status plain)⟩
    · exact ⟨path, written, resolveNotesKey_status.mpr named⟩

/-- The telemetry tells the truth about a cycle exactly when its batches do not mislead it. -/
theorem status_note_written_iff {fs : AgentFs} {render : Content → String}
    {tools : AgentFs → List ToolCall → σ → Except FsError StepOutcome × σ} {storage : σ} {seed : Seed}
    {events : List (Decision × Clock)} {final : σ × Session} {outputs : List Unit}
    (ran : (sessionSteps fs render tools).run (storage, .new seed) events = some (final, outputs)) :
    (statusNoteWritten final.2 = true ↔ ∃ step ∈ final.2.steps, Refreshes fs step) ↔
      Telling (batchesOf (events.map (·.1))) := by
  obtain ⟨actions, told⟩ := session_steps ran
  rw [statusNoteWritten_iff actions, refreshed_iff actions told]
  generalize batchesOf (events.map (·.1)) = batches
  unfold Telling
  by_cases fine : ∃ ops ∈ batches, Accepts ops ∧ Plainly ops
  · obtain ⟨ops, member, accepted, plain⟩ := fine
    exact iff_of_true (iff_of_true ⟨ops, member, plain⟩ ⟨ops, member, accepted, .inl plain⟩)
      (.inl ⟨ops, member, accepted, plain⟩)
  · rw [or_iff_right fine]
    apply iff_congr
    · constructor
      · exact fun ⟨ops, member, plain⟩ => ⟨ops, member, fun accepted => fine ⟨ops, member, accepted, plain⟩, plain⟩
      · exact fun ⟨ops, member, _, plain⟩ => ⟨ops, member, plain⟩
    · constructor
      · rintro ⟨ops, member, accepted, plain | other⟩
        · exact (fine ⟨ops, member, accepted, plain⟩).elim
        · exact ⟨ops, member, accepted, other⟩
      · exact fun ⟨ops, member, accepted, other⟩ => ⟨ops, member, accepted, .inr other⟩

end Cycle

section Examples

private def quiet (_ : AgentFs) (_ : List ToolCall) (storage : MemoryStorage) : Except FsError StepOutcome × MemoryStorage :=
  (.ok (.ok ""), storage)

private def oneBatch (ops : List FsOp) : Option ((MemoryStorage × Session) × List Unit) :=
  (sessionSteps ⟨""⟩ (fun _ => "") quiet).run (⟨∅⟩, .new ⟨.new "" ⟨0⟩ none, [], {}⟩) [(.rewriteFs ops, fun _ => ⟨0⟩)]

theorem status_note_written_iff_plain : ∃ final outputs, oneBatch [.writeFile "./notes/STATUS.md" ""] = some (final, outputs) ∧
    (statusNoteWritten final.2 = true ↔ ∃ step ∈ final.2.steps, Refreshes ⟨""⟩ step) := by
  have ended : (oneBatch [.writeFile "./notes/STATUS.md" ""]).isSome = true := by decide +kernel
  obtain ⟨⟨final, outputs⟩, ran⟩ := Option.isSome_iff_exists.mp ended
  exact ⟨final, outputs, ran, (status_note_written_iff ran).mpr (.inl (by decide +kernel))⟩

/-- A doubled slash hides the write, and a batch that is rejected for another path shows one. -/
theorem telemetry_misled :
    (∃ final outputs, oneBatch [.writeFile "notes//STATUS.md" ""] = some (final, outputs) ∧
      statusNoteWritten final.2 = false ∧ ∃ step ∈ final.2.steps, Refreshes ⟨""⟩ step) ∧
    ∃ final outputs, oneBatch [.writeFile "notes/STATUS.md" "", .writeFile "x" ""] = some (final, outputs) ∧
      statusNoteWritten final.2 = true ∧ ¬ ∃ step ∈ final.2.steps, Refreshes ⟨""⟩ step := by
  have ended : ∀ ops, (oneBatch ops).isSome = true → ∃ final outputs, oneBatch ops = some (final, outputs) ∧
      (statusNoteWritten final.2 = true ↔ ∃ batch ∈ [ops], Plainly batch) ∧
        ((∃ step ∈ final.2.steps, Refreshes ⟨""⟩ step) ↔ ∃ batch ∈ [ops], Accepts batch ∧ (Plainly batch ∨ Otherwise batch)) := by
    intro ops ends
    obtain ⟨⟨final, outputs⟩, ran⟩ := Option.isSome_iff_exists.mp ends
    obtain ⟨actions, told⟩ := session_steps ran
    exact ⟨final, outputs, ran, statusNoteWritten_iff actions, refreshed_iff actions told⟩
  constructor
  · obtain ⟨final, outputs, ran, telemetry, refreshed⟩ := ended [.writeFile "notes//STATUS.md" ""] (by decide +kernel)
    refine ⟨final, outputs, ran, ?_, refreshed.mpr (by decide +kernel)⟩
    rw [← Bool.not_eq_true, telemetry]
    decide +kernel
  · obtain ⟨final, outputs, ran, telemetry, refreshed⟩ :=
      ended [.writeFile "notes/STATUS.md" "", .writeFile "x" ""] (by decide +kernel)
    refine ⟨final, outputs, ran, telemetry.mpr (by decide +kernel), ?_⟩
    rw [refreshed]
    decide +kernel

end Examples

end Coral.Proofs

import Coral.Proofs.GraphActivities
import Coral.Proofs.LastingStorage

/-! A reconciliation that is refused. Every child is read before anything is written, but the
alternatives of a conflict are only counted after the folds are on file. -/

namespace Coral.Proofs
open Coral.Library Coral.Temporal LawfulStorage

section Folds

variable {σ : Type} [AgentStorage σ] [LawfulStorage σ] {codec : Codec} {graphId : GraphId} {agentId : AgentId}
  {storage after : σ} {now : DateTime}

/-- The key of the record that pins what was read. -/
def foldKey (codec : Codec) (graphId : GraphId) (agentId : AgentId) (now : DateTime) (source : ReconcileSource)
    (body : String) : String :=
  (AgentFs.openForAgent graphId agentId).key (evidenceRelpath (foldSeed source) (foldRecord codec source body now).id)

/-- Nothing under the agent's prefix is changed. -/
def Untouched (graphId : GraphId) (agentId : AgentId) (storage after : σ) : Prop :=
  ∀ rest, view after (place ((AgentFs.openForAgent graphId agentId).key rest)) =
    view storage (place ((AgentFs.openForAgent graphId agentId).key rest))

theorem Untouched.found {rest : String} {found : Option Content} (untouched : Untouched graphId agentId storage after)
    (there : viewAt storage ((AgentFs.openForAgent graphId agentId).key rest) = found) :
    viewAt after ((AgentFs.openForAgent graphId agentId).key rest) = found := (untouched rest).trans there

/-- What is on file stays on file. -/
def Grows (storage after : σ) : Prop := ∀ place : Place σ, (view storage place).isSome = true → (view after place).isSome = true

theorem grows_sets {key : String} {value : Content} (sets : Sets storage after key (some value)) : Grows storage after := by
  intro place present
  rw [sets]
  split
  · rfl
  · exact present

omit [AgentStorage σ] [LawfulStorage σ] in
theorem foldKey_named (codec : Codec) (graphId : GraphId) (agentId : AgentId) (now : DateTime) (source : ReconcileSource)
    (body : String) : ∃ name : Name, foldKey codec graphId agentId now source body =
      (AgentFs.openForAgent graphId agentId).key (joinPath [evidenceName, name]) := by
  unfold foldKey foldRecord
  generalize Json.object _ = args
  obtain ⟨name, named, -⟩ := relpath_joinPath "reconcile" (foldSeed source) args (.string body) now
  rw [named]
  exact ⟨name, rfl⟩

omit [AgentStorage σ] [LawfulStorage σ] in
/-- One record's key never leads through another's. -/
theorem foldKey_apart {source other : ReconcileSource} {body text : String}
    (above : keyPath (foldKey codec graphId agentId now source body) <+: keyPath (foldKey codec graphId agentId now other text)) :
    foldKey codec graphId agentId now source body = foldKey codec graphId agentId now other text := by
  obtain ⟨first, named⟩ := foldKey_named codec graphId agentId now source body
  obtain ⟨second, called⟩ := foldKey_named codec graphId agentId now other text
  rw [named, called] at above ⊢
  rw [keyPath_agent, keyPath_agent, keyPath_joinPath, keyPath_joinPath] at above
  have same := above.eq_of_length rfl
  simp only [List.cons_append, List.nil_append, List.cons.injEq, true_and, and_true] at same
  rw [same]

/-- A fold that is recorded: its file was there and nothing changes, or it is new. -/
theorem record_fold {clock : DateTime} {source : ReconcileSource} {body path : String}
    [ExclusiveStorage σ] (recorded : (AgentFs.openForAgent graphId agentId).recordEvidence clock
      (foldRecord codec source body now) (foldSeed source) storage = (.ok path, after)) :
    (¬ vacant storage (foldKey codec graphId agentId now source body) ∧ view after = view storage ∧
        (∀ other, vacant after other → vacant storage other) ∧
        ∀ other, ¬ keyPath other <+: keyPath (foldKey codec graphId agentId now source body) → vacant storage other →
          vacant after other) ∨
      vacant storage (foldKey codec graphId agentId now source body) ∧
        view storage (place (foldKey codec graphId agentId now source body)) = none ∧
        (view after (place (foldKey codec graphId agentId now source body))).isSome = true ∧ Grows storage after := by
  unfold foldKey
  simp only [AgentFs.recordEvidence] at recorded
  generalize foldRecord codec source body now = record at recorded ⊢
  generalize evidenceRelpath (foldSeed source) record.id = relpath at recorded ⊢
  cases wrote : AgentStorage.putIfAbsent storage ((AgentFs.openForAgent graphId agentId).key relpath) (.evidence record) with
  | error source =>
    rw [wrote] at recorded
    cases recorded
  | ok outcome =>
    obtain ⟨kind, middle⟩ := outcome
    rw [wrote] at recorded
    have kept := putIfAbsent_vacant storage middle _ _ kind wrote
    cases kind with
    | existed =>
      cases recorded
      exact .inl ⟨kept.1 rfl, putIfAbsent_existed storage _ _ _ wrote, ExclusiveStorage.existed_vacant wrote, kept.2⟩
    | created =>
      have fresh := putIfAbsent_created storage middle _ _ wrote
      simp only [AgentFs.stored] at recorded
      split at recorded
      · cases recorded
      · rename_i followed
        cases recorded
        obtain ⟨value, put⟩ := appendToTail_put followed
        have grown := grows_sets (put_ok middle _ _ value put).2
        have stored : (view middle (place ((AgentFs.openForAgent graphId agentId).key path))).isSome = true := by
          rw [fresh.2.2, if_pos rfl]
          rfl
        exact .inr ⟨ExclusiveStorage.created_vacant wrote, fresh.1, grown _ stored,
          fun place present => grown place (grows_sets fresh.2.2 place present)⟩

omit [LawfulStorage σ] in
/-- A first fold and the others are recorded one after the other. -/
theorem writeFolds_cons {clock : Clock} {reading : Nat} {source : ReconcileSource} {body : String}
    {outputs : List (ReconcileSource × String)} {paths : List String}
    (ran : writeFolds codec (.openForAgent graphId agentId) now clock reading ((source, body) :: outputs) storage =
      (.ok paths, after)) :
    ∃ path middle rest, (AgentFs.openForAgent graphId agentId).recordEvidence (clock reading)
        (foldRecord codec source body now) (foldSeed source) storage = (.ok path, middle) ∧
      writeFolds codec (.openForAgent graphId agentId) now clock (reading + 1) outputs middle = (.ok rest, after) := by
  unfold writeFolds at ran
  split at ran
  · cases ran
  · rename_i path middle recorded
    split at ran
    · cases ran
    · rename_i rest final
      cases ran
      exact ⟨path, middle, _, recorded, final⟩

variable [ExclusiveStorage σ] {clock : Clock} {reading : Nat} {outputs : List (ReconcileSource × String)}
  {paths : List String}

/-- Folds that are all on file already are written without effect. -/
theorem writeFolds_present
    (ran : writeFolds codec (.openForAgent graphId agentId) now clock reading outputs storage = (.ok paths, after))
    (present : ∀ source body, (source, body) ∈ outputs → ¬ vacant storage (foldKey codec graphId agentId now source body)) :
    view after = view storage := by
  induction outputs generalizing storage reading paths with
  | nil =>
    cases ran
    rfl
  | cons output outputs ih =>
    obtain ⟨source, body⟩ := output
    obtain ⟨path, middle, rest, recorded, later⟩ := writeFolds_cons ran
    rcases record_fold recorded with ⟨-, same, kept, -⟩ | ⟨vacancy, -⟩
    · rw [ih later fun other text member free => present other text (List.mem_cons_of_mem _ member) (kept _ free), same]
    · exact (present source body List.mem_cons_self vacancy).elim

theorem writeFolds_grows
    (ran : writeFolds codec (.openForAgent graphId agentId) now clock reading outputs storage = (.ok paths, after)) :
    Grows storage after := by
  induction outputs generalizing storage reading paths with
  | nil =>
    cases ran
    exact fun _ present => present
  | cons output outputs ih =>
    obtain ⟨source, body⟩ := output
    obtain ⟨path, middle, rest, recorded, later⟩ := writeFolds_cons ran
    intro place present
    apply ih later
    rcases record_fold recorded with ⟨-, same, -⟩ | ⟨-, -, -, grows⟩
    · rw [same]
      exact present
    · exact grows place present

/-- A fold that is not on file is written, and stays. -/
theorem writeFolds_changes
    (ran : writeFolds codec (.openForAgent graphId agentId) now clock reading outputs storage = (.ok paths, after))
    (absent : ∃ source body, (source, body) ∈ outputs ∧ vacant storage (foldKey codec graphId agentId now source body)) :
    ∃ source body, view storage (place (foldKey codec graphId agentId now source body)) = none ∧
      (view after (place (foldKey codec graphId agentId now source body))).isSome = true := by
  induction outputs generalizing storage reading paths with
  | nil =>
    obtain ⟨_, _, member, -⟩ := absent
    cases member
  | cons output outputs ih =>
    obtain ⟨source, body⟩ := output
    obtain ⟨path, middle, rest, recorded, later⟩ := writeFolds_cons ran
    rcases record_fold recorded with ⟨occupied, same, -, kept⟩ | ⟨-, free, made, -⟩
    · obtain ⟨other, text, member, vacancy⟩ := absent
      rcases List.mem_cons.mp member with first | among
      · cases first
        exact (occupied vacancy).elim
      · have apart : ¬ keyPath (foldKey codec graphId agentId now other text) <+:
            keyPath (foldKey codec graphId agentId now source body) := by
          intro above
          rw [foldKey_apart above] at vacancy
          exact occupied vacancy
        obtain ⟨written, content, before, behind⟩ := ih later ⟨other, text, among, kept _ apart vacancy⟩
        rw [same] at before
        exact ⟨written, content, before, behind⟩
    · exact ⟨source, body, free, writeFolds_grows later _ made⟩

end Folds

section Reconcile

variable {σ : Type} [AgentStorage σ] {codec : Codec} {storage after : σ} {now : DateTime} {clock : Clock}

theorem writeFolds_untyped {fs : AgentFs} {reading : Nat} {outputs : List (ReconcileSource × String)} {error : ReconcileError}
    (ran : writeFolds codec fs now clock reading outputs storage = (.error error, after)) : error.isTyped = false := by
  induction outputs generalizing storage reading with
  | nil => cases ran
  | cons output outputs ih =>
    unfold writeFolds at ran
    split at ran
    · cases ran
      rfl
    · split at ran
      · rename_i later
        cases ran
        exact ih later
      · cases ran

theorem readChildOutputs_ok {graphId : GraphId} {sources : List ReconcileSource} {outputs : List (ReconcileSource × String)}
    (read : readChildOutputs codec graphId storage sources = .ok outputs) (source : ReconcileSource) (body : String) :
    (source, body) ∈ outputs ↔ source ∈ sources ∧ readChildOutput codec graphId source storage = .ok body := by
  induction sources generalizing outputs with
  | nil =>
    cases read
    simp
  | cons first sources ih =>
    obtain ⟨text, here, more⟩ := bind_ok read
    obtain ⟨rest, there, whole⟩ := bind_ok more
    cases whole
    rw [List.mem_cons, List.mem_cons, ih there]
    constructor
    · rintro (same | ⟨member, body⟩)
      · cases same
        exact ⟨.inl rfl, here⟩
      · exact ⟨.inr member, body⟩
    · rintro ⟨rfl | member, body⟩
      · rw [here] at body
        cases body
        exact .inl rfl
      · exact .inr ⟨member, body⟩

theorem readChildOutputs_all {graphId : GraphId} {sources : List ReconcileSource} {outputs : List (ReconcileSource × String)}
    (read : readChildOutputs codec graphId storage sources = .ok outputs) {source : ReconcileSource} (member : source ∈ sources) :
    ∃ body, readChildOutput codec graphId source storage = .ok body := by
  induction sources generalizing outputs with
  | nil => cases member
  | cons first sources ih =>
    obtain ⟨text, here, more⟩ := bind_ok read
    obtain ⟨rest, there, whole⟩ := bind_ok more
    rcases List.mem_cons.mp member with rfl | among
    · exact ⟨text, here⟩
    · exact ih there among

theorem readChildOutputs_error {graphId : GraphId} {sources : List ReconcileSource} {error : ReconcileError}
    (failed : readChildOutputs codec graphId storage sources = .error error) :
    ∃ source ∈ sources, readChildOutput codec graphId source storage = .error error := by
  induction sources with
  | nil => cases failed
  | cons first sources ih =>
    unfold readChildOutputs at failed
    cases here : readChildOutput codec graphId first storage with
    | error refused =>
      rw [here] at failed
      cases failed
      exact ⟨first, List.mem_cons_self, here⟩
    | ok body =>
      rw [here] at failed
      cases there : readChildOutputs codec graphId storage sources with
      | error refused =>
        rw [there] at failed
        cases failed
        obtain ⟨source, member, unread⟩ := ih there
        exact ⟨source, List.mem_cons_of_mem _ member, unread⟩
      | ok outputs =>
        rw [there] at failed
        cases failed

theorem writeFolds_one {fs : AgentFs} {reading : Nat} {source : ReconcileSource} {body path : String}
    (recorded : fs.recordEvidence (clock reading) (foldRecord codec source body now) (foldSeed source) storage =
      (.ok path, after)) : writeFolds codec fs now clock reading [(source, body)] storage = (.ok [path], after) := by
  unfold writeFolds
  rw [recorded]
  rfl

/-- The folds stay when the conflict is refused. -/
theorem reconcile_few {input : ReconcileChildrenInput} {outputs : List (ReconcileSource × String)} {paths : List String}
    {intent : ConflictRecordIntent} (read : readChildOutputs codec input.parentGraphId storage input.sources = .ok outputs)
    (written : writeFolds codec (.openForAgent input.parentGraphId input.parentAgentId) now clock 0 outputs storage =
      (.ok paths, after))
    (asked : input.conflict = some intent) (few : intent.alternatives.length < 2) :
    reconcileChildrenImpl codec input now clock storage =
      (.error (.conflictAlternativesTooFew intent.alternatives.length), after) := by
  unfold reconcileChildrenImpl
  simp only [read, written]
  unfold writeConflict
  simp only [asked, if_pos few]

variable [LawfulStorage σ]

theorem readChildOutput_found {footing : Footing σ} {graphId : GraphId} {source : ReconcileSource} {body : String}
    {bytes : Content} (alive : footing.lasts storage 0)
    (kept : footing.keeps ((AgentFs.openForAgent graphId source.childRef.agentId).key CANONICAL_OUTPUT))
    (found : viewAt storage ((AgentFs.openForAgent graphId source.childRef.agentId).key CANONICAL_OUTPUT) = some bytes)
    (reads : codec.fromUtf8 bytes = some body) : readChildOutput codec graphId source storage = .ok body := by
  unfold readChildOutput
  simp only [Footing.get_view alive kept, found, reads]

/-- What makes a refusal leave no trace: the conflict has its alternatives, a child's output
cannot be read, or every fold is on file already. -/
def Traceless (codec : Codec) (input : ReconcileChildrenInput) (now : DateTime) (storage : σ) : Prop :=
  (∀ intent, input.conflict = some intent → 2 ≤ intent.alternatives.length) ∨
    (∃ source ∈ input.sources, ∃ error, readChildOutput codec input.parentGraphId source storage = .error error) ∨
    ∀ source ∈ input.sources, ∀ body, readChildOutput codec input.parentGraphId source storage = .ok body →
      ¬ vacant storage (foldKey codec input.parentGraphId input.parentAgentId now source body)

omit [LawfulStorage σ] in
/-- How a typed error comes about: before anything is written, or after all the folds are. -/
theorem refused_cases {input : ReconcileChildrenInput} {error : ReconcileError}
    (failed : reconcileChildrenImpl codec input now clock storage = (.error error, after)) (typed : error.isTyped = true) :
    ((∃ source ∈ input.sources, ∃ error, readChildOutput codec input.parentGraphId source storage = .error error) ∧
        after = storage) ∨
      ∃ outputs paths intent, readChildOutputs codec input.parentGraphId storage input.sources = .ok outputs ∧
        writeFolds codec (.openForAgent input.parentGraphId input.parentAgentId) now clock 0 outputs storage =
          (.ok paths, after) ∧
        input.conflict = some intent ∧ intent.alternatives.length < 2 := by
  unfold reconcileChildrenImpl at failed
  dsimp only at failed
  split at failed
  · rename_i refused unread
    cases failed
    obtain ⟨source, member, reason⟩ := readChildOutputs_error unread
    exact .inl ⟨⟨source, member, _, reason⟩, rfl⟩
  · rename_i outputs read
    split at failed
    · rename_i broken
      cases failed
      rw [writeFolds_untyped broken] at typed
      cases typed
    · rename_i paths middle written
      split at failed
      · rename_i refused final conflicting
        cases failed
        unfold writeConflict at conflicting
        split at conflicting
        · cases conflicting
        · rename_i intent asked
          split at conflicting
          · rename_i few
            cases conflicting
            exact .inr ⟨outputs, paths, intent, read, written, asked, few⟩
          · split at conflicting
            · cases conflicting
              cases typed
            · cases conflicting
      · cases failed

/-- A reconciliation that is refused with a typed error leaves the parent's files as they were
exactly when no fold was written before the refusal. -/
theorem refused_reconcile_untouched_iff [ExclusiveStorage σ] (codec : Codec) (input : ReconcileChildrenInput) (now : DateTime)
    (clock : Clock) (storage after : σ) (error : ReconcileError)
    (failed : reconcileChildrenImpl codec input now clock storage = (.error error, after)) (typed : error.isTyped = true) :
    Untouched input.parentGraphId input.parentAgentId storage after ↔ Traceless codec input now storage := by
  rcases refused_cases failed typed with ⟨unread, rfl⟩ | ⟨outputs, paths, intent, read, written, asked, few⟩
  · exact ⟨fun _ => .inr (.inl unread), fun _ _ => rfl⟩
  · have folds := readChildOutputs_ok read
    constructor
    · intro untouched
      refine .inr (.inr fun source member body here vacancy => ?_)
      obtain ⟨other, text, free, made⟩ :=
        writeFolds_changes written ⟨source, body, (folds source body).mpr ⟨member, here⟩, vacancy⟩
      have same : view after (place (foldKey codec input.parentGraphId input.parentAgentId now other text)) =
          view storage (place (foldKey codec input.parentGraphId input.parentAgentId now other text)) := untouched _
      rw [same, free] at made
      cases made
    · rintro (enough | ⟨source, member, reason, unread⟩ | present)
      · have := enough intent asked
        omega
      · obtain ⟨body, here⟩ := readChildOutputs_all read member
        rw [unread] at here
        cases here
      · intro rest
        rw [writeFolds_present written fun source body among =>
          present source ((folds source body).mp among).1 body ((folds source body).mp among).2]

end Reconcile

section Examples

private def plain : Codec := listedCodec [] []

private def child : ReconcileSource := ⟨⟨"child", ⟨⟨2⟩⟩⟩, .new "Yes."⟩

private def oneSided : ReconcileChildrenInput := ⟨⟨⟨0⟩⟩, ⟨⟨1⟩⟩, [child], some ⟨[], none⟩⟩

/-- The child has its output, and the parent has nothing. -/
private def family : MemoryStorage :=
  ⟨(∅ : AList fun _ : String => Content).insert ((AgentFs.openForAgent ⟨⟨0⟩⟩ ⟨⟨2⟩⟩).key CANONICAL_OUTPUT) (.text "Yes.")⟩

private theorem family_sets : Sets (⟨∅⟩ : MemoryStorage) family
    ((AgentFs.openForAgent ⟨⟨0⟩⟩ ⟨⟨2⟩⟩).key CANONICAL_OUTPUT) (some (.text "Yes.")) :=
  (put_spec (show AgentFs.put (⟨∅⟩ : MemoryStorage) _ _ = .ok family from rfl)).2

private theorem parent_bare (rest : String) : viewAt family ((AgentFs.openForAgent ⟨⟨0⟩⟩ ⟨⟨1⟩⟩).key rest) = none := by
  rw [family_sets.apart]
  · rfl
  · intro same
    have agents := (keyPath_agent_inj same).1
    revert agents
    decide

private theorem vacant_bare {storage : MemoryStorage} {key : String} (bare : viewAt storage key = none) :
    vacant storage key := bare

private theorem child_read : readChildOutputs plain ⟨⟨0⟩⟩ family [child] = .ok [(child, "Yes.")] := by
  have body : readChildOutput plain ⟨⟨0⟩⟩ child family = .ok "Yes." :=
    @readChildOutput_found _ _ _ _ _ MemoryStorage.footing _ _ _ _ trivial trivial family_sets.at_key rfl
  unfold readChildOutputs
  rw [body]
  rfl

/-- A conflict with no alternatives is refused once the child's record is on file. -/
theorem conflict_leaves_evidence : ∃ error after,
    reconcileChildrenImpl plain oneSided ⟨0⟩ (fun _ => ⟨0⟩) family = (.error error, after) ∧ error.isTyped = true ∧
      ¬ Untouched ⟨⟨0⟩⟩ ⟨⟨1⟩⟩ family after := by
  obtain ⟨after, recorded, -, written⟩ := @Footing.records MemoryStorage _ _ MemoryStorage.footing family 0 ⟨⟨0⟩⟩
    ⟨⟨1⟩⟩ "reconcile" (foldSeed child)
    (.object [("child_agent_id", child.childRef.agentId.toJson),
      ("child_output_blob_sha", .string (plain.ofBytes (.text "Yes.")).hex),
      ("child_workflow_id", .string child.childRef.workflowId), ("source_output_id", child.outputId.toJson)])
    (.string "Yes.") ⟨0⟩ ⟨0⟩ (MemoryStorage.houses _) trivial (vacant_bare (parent_bare _))
  refine ⟨_, after, reconcile_few child_read (writeFolds_one recorded) rfl (by decide), rfl, ?_⟩
  intro untouched
  have bare := untouched.found (parent_bare (evidenceRelpath (foldSeed child) (foldRecord plain child "Yes." ⟨0⟩).id))
  have present := written.symm.trans bare
  cases present

private theorem child_unread : reconcileChildrenImpl plain oneSided ⟨0⟩ (fun _ => ⟨0⟩) (⟨∅⟩ : MemoryStorage) =
    (.error (.childOutputNotFound ⟨⟨2⟩⟩ child.outputId), ⟨∅⟩) := by
  have unread : readChildOutputs plain ⟨⟨0⟩⟩ (⟨∅⟩ : MemoryStorage) [child] =
      .error (.childOutputNotFound ⟨⟨2⟩⟩ child.outputId) := by
    unfold readChildOutputs readChildOutput
    simp only [@Footing.get_view MemoryStorage _ _ MemoryStorage.footing ⟨∅⟩ 0 _ trivial trivial]
    rfl
  unfold reconcileChildrenImpl oneSided
  simp only
  rw [unread]

/-- A child without an output is found out before anything is written. -/
theorem missing_output_untouched :
    Untouched ⟨⟨0⟩⟩ ⟨⟨1⟩⟩ (⟨∅⟩ : MemoryStorage) ⟨∅⟩ ↔ Traceless plain oneSided ⟨0⟩ (⟨∅⟩ : MemoryStorage) :=
  refused_reconcile_untouched_iff plain oneSided ⟨0⟩ (fun _ => ⟨0⟩) (⟨∅⟩ : MemoryStorage) ⟨∅⟩ _ child_unread rfl

end Examples

end Coral.Proofs

import Mathlib.Data.List.Dedup
import Coral.Proofs.CitationForgery

/-! The rows that an output's citations leave. A record is found by the path it is cited by
once that is cleaned, and its row is made of the path as the model wrote it. -/

namespace Coral.Proofs
open Coral.Library Coral.Temporal LawfulStorage

section Records

variable {σ : Type} [AgentStorage σ] [LawfulStorage σ] (codec : Codec) (call : PersistCall)

/-- The rows of the version that the call persists. -/
def PersistCall.rows (db : StructuralDb) : List Citation :=
  db.citations.filter fun row => row.citingAgentId = call.agentId ∧ row.citingFilepath = CANONICAL_OUTPUT ∧
    row.citingBlobSha = codec.ofBytes (.text call.body)

/-- The records that are cited, by their own paths and each once. -/
def PersistCall.records : List String :=
  (call.citations.filterMap fun path => (AgentFs.evidenceRelpathChecked path).toOption).dedup

/-- Each record that is cited has one row, which names the record by its own path. -/
def PersistCall.Canonical (storage : σ) (db : StructuralDb) : Prop :=
  ((call.rows codec db).map some).Perm (call.records.map (call.row codec storage))

def PersistCall.record (storage : σ) (path : String) : Option EvidenceRecord :=
  (citedBytes call.fs storage path).bind codec.fromSlice

/-- The version of another agent's output that a record of a fold pins. -/
def pinnedVersion (record : EvidenceRecord) : Option AgentId × Option String :=
  ((record.args.get? "child_agent_id").bind codec.fromValue,
    (record.args.get? "child_output_blob_sha").bind Json.asStr)

/-- The agent's own records are cited by their own paths, and no two records of folds pin
the same version. -/
structure PersistCall.Plain (storage : σ) : Prop where
  spelled : ∀ path ∈ call.citations, ∀ record, call.record codec storage path = some record →
    record.tool ≠ "reconcile" → AgentFs.evidenceRelpathChecked path = .ok path
  apart : ∀ first ∈ call.records, ∀ second ∈ call.records, ∀ one two,
    call.record codec storage first = some one → call.record codec storage second = some two →
    one.tool = "reconcile" → two.tool = "reconcile" → pinnedVersion codec one = pinnedVersion codec two → first = second

end Records

section Paths

theorem evidenceRelpathChecked_idem {path rel : String} (checked : AgentFs.evidenceRelpathChecked path = .ok rel) :
    AgentFs.evidenceRelpathChecked rel = .ok rel := by
  obtain ⟨cleaned, below, record⟩ := evidenceRelpathChecked_ok checked
  obtain ⟨parts, rfl⟩ := cleanRelpath_ok cleaned
  have clean : AgentFs.cleanRelpath (joinPath parts) = .ok (joinPath parts) := by
    unfold AgentFs.cleanRelpath
    rw [plainParts_joinPath]
    rintro rfl
    exact absurd below (by decide)
  have named : joinPath parts ≠ "evidence" := by
    intro same
    rw [same] at below
    exact absurd below (by decide)
  unfold AgentFs.evidenceRelpathChecked
  rw [clean]
  simp only [bind, Except.bind, below, named, record, Bool.true_eq_false, or_self, if_false]
  rfl

theorem mem_records {call : PersistCall} {rel : String} :
    rel ∈ call.records ↔ ∃ path ∈ call.citations, AgentFs.evidenceRelpathChecked path = .ok rel := by
  unfold PersistCall.records
  rw [List.mem_dedup, List.mem_filterMap]
  constructor
  · intro ⟨path, member, checked⟩
    exact ⟨path, member, ok_of_toOption checked⟩
  · intro ⟨path, member, checked⟩
    exact ⟨path, member, by rw [checked]; rfl⟩

variable {σ : Type} [AgentStorage σ] [LawfulStorage σ] {codec : Codec} {call : PersistCall} {storage : σ}

theorem citedBytes_checked {fs : AgentFs} {path rel : String} (checked : AgentFs.evidenceRelpathChecked path = .ok rel) :
    citedBytes fs storage rel = citedBytes fs storage path := by
  unfold citedBytes
  rw [checked, evidenceRelpathChecked_idem checked]

theorem citedBytes_some {fs : AgentFs} {path : String} {bytes : Content} (found : citedBytes fs storage path = some bytes) :
    ∃ rel, AgentFs.evidenceRelpathChecked path = .ok rel := by
  unfold citedBytes at found
  split at found
  · exact ⟨_, by assumption⟩
  · cases found

/-- A row is that of the version a record pins, or of the record itself by the path it is cited by. -/
theorem row_cases {path : String} {row : Citation} (named : call.row codec storage path = some row) :
    row.citingAgentId = call.agentId ∧ row.citingFilepath = CANONICAL_OUTPUT ∧
      row.citingBlobSha = codec.ofBytes (.text call.body) ∧
      ∃ record, call.record codec storage path = some record ∧
        ((record.tool = "reconcile" ∧ row.citedFilepath = CANONICAL_OUTPUT ∧
            pinnedVersion codec record = (some row.citedAgentId, some row.citedBlobSha.hex)) ∨
          (record.tool ≠ "reconcile" ∧ row.citedAgentId = call.agentId ∧ row.citedFilepath = path ∧
            (citedBytes call.fs storage path).map codec.ofBytes = some row.citedBlobSha)) := by
  unfold PersistCall.row at named
  obtain ⟨bytes, found, named⟩ := Option.bind_eq_some_iff.mp named
  obtain ⟨⟨agent, filepath, sha⟩, resolved, named⟩ := Option.bind_eq_some_iff.mp named
  cases named
  have resolved := ok_of_toOption resolved
  unfold resolveRecord at resolved
  split at resolved
  · cases resolved
  · rename_i record parsed
    refine ⟨rfl, rfl, rfl, record, ?_, ?_⟩
    · unfold PersistCall.record
      rw [found]
      exact parsed
    · split at resolved
      · rename_i folds
        split at resolved
        · cases resolved
        · rename_i value child
          split at resolved
          · cases resolved
          · rename_i childAgentId decoded
            split at resolved
            · cases resolved
            · rename_i childSha pinned
              cases resolved
              refine .inl ⟨folds, rfl, ?_⟩
              unfold pinnedVersion
              rw [child, pinned]
              exact congrArg (·, some childSha) decoded
      · rename_i own
        cases resolved
        exact .inr ⟨own, rfl, rfl, by rw [found]; rfl⟩

/-- Two rows of one call are the same when their cited ends are. -/
theorem row_eq {first second : String} {one two : Citation} (here : call.row codec storage first = some one)
    (there : call.row codec storage second = some two) (agent : one.citedAgentId = two.citedAgentId)
    (filepath : one.citedFilepath = two.citedFilepath) (sha : one.citedBlobSha = two.citedBlobSha) : one = two := by
  obtain ⟨citing, path, body, -⟩ := row_cases here
  obtain ⟨citing', path', body', -⟩ := row_cases there
  cases one
  cases two
  simp only at *
  subst citing path body citing' path' body' agent filepath sha
  rfl

theorem canonical_output_unchecked (rel : String) : AgentFs.evidenceRelpathChecked CANONICAL_OUTPUT ≠ .ok rel := by
  intro checked
  obtain ⟨cleaned, below, -⟩ := evidenceRelpathChecked_ok checked
  have clean : AgentFs.cleanRelpath CANONICAL_OUTPUT = .ok CANONICAL_OUTPUT := by decide
  cases clean.symm.trans cleaned
  exact absurd below (by decide)

end Paths

section Versions

variable {σ : Type} [AgentStorage σ] [LawfulStorage σ] {codec : Codec} {call : PersistCall}

/-- The table takes no row twice. -/
theorem addCitation_nodup {db after : StructuralDb} {row : Citation} (kept : Citation → Bool)
    (cited : db.addCitation row = .ok after) (distinct : (db.citations.filter kept).Nodup) :
    (after.citations.filter kept).Nodup := by
  unfold StructuralDb.addCitation at cited
  split at cited
  · cases cited
  · split at cited
    · cases cited
    · split at cited
      · cases cited
        exact distinct
      · rename_i fresh
        cases cited
        rw [List.filter_append, List.nodup_append]
        refine ⟨distinct, (List.nodup_singleton row).filter _, ?_⟩
        rintro other old _ new rfl
        rw [List.mem_singleton.mp (List.mem_of_mem_filter new)] at old
        exact fresh (List.mem_of_mem_filter old)

omit [LawfulStorage σ] in
theorem attempt_nodup {faults : Faults} {before after : σ × StructuralDb} {result : Except PersistError OutputId}
    (kept : Citation → Bool) (ran : call.attempt codec faults before = (result, after))
    (distinct : (before.2.citations.filter kept).Nodup) : (after.2.citations.filter kept).Nodup := by
  unfold PersistCall.attempt at ran
  generalize whole : persistOutputImpl codec faults.clock call.agentId call.storagePrefix call.body call.citations
    (⟨before.1, faults.writes, faults.unreadable⟩ : Faulty σ) (⟨before.2, faults.calls⟩ : FaultyDb) = ended at ran
  obtain ⟨outcome, storage, db⟩ := ended
  cases ran
  refine @persistOutputImpl_db (Faulty σ) _ FaultyDb _ (fun current => (current.db.citations.filter kept).Nodup) _ _ _ _ _
    _ _ _ _ _ _ whole distinct ?_ ?_
  · intro store next _ _ _ held indexed
    rw [StructuralDb.setFileVersion_ok (FaultyDb.whileUp_ok indexed)]
    exact held
  · intro store next row held cited
    exact addCitation_nodup kept (FaultyDb.whileUp_ok cited) held

/-- A record of a fold has the same row by any path that it is cited by. -/
theorem row_fold {storage : σ} {path rel : String} {record : EvidenceRecord}
    (checked : AgentFs.evidenceRelpathChecked path = .ok rel) (found : call.record codec storage path = some record)
    (folds : record.tool = "reconcile") : call.row codec storage rel = call.row codec storage path := by
  obtain ⟨bytes, there, parsed⟩ := Option.bind_eq_some_iff.mp found
  have resolved : resolveRecord codec call.agentId rel bytes = resolveRecord codec call.agentId path bytes := by
    unfold resolveRecord
    rw [parsed]
    simp only [if_pos folds]
  unfold PersistCall.row
  rw [citedBytes_checked checked, there]
  simp only [Option.bind_eq_bind, Option.bind_some, resolved]

variable {storage : σ} {rows : List Citation}

/-- Plain citations leave each record one row. -/
theorem Plain.canonical (plain : call.Plain codec storage) (distinct : rows.Nodup)
    (resolved : ∀ path ∈ call.citations, ∃ row, call.row codec storage path = some row)
    (members : ∀ row, row ∈ rows ↔ call.Cites codec storage row) :
    (rows.map some).Perm (call.records.map (call.row codec storage)) := by
  have named : ∀ path ∈ call.citations, ∀ rel, AgentFs.evidenceRelpathChecked path = .ok rel →
      call.row codec storage rel = call.row codec storage path := by
    intro path member rel checked
    obtain ⟨row, here⟩ := resolved path member
    obtain ⟨-, -, -, record, found, ⟨folds, -⟩ | ⟨own, -⟩⟩ := row_cases here
    · exact row_fold checked found folds
    · rw [Except.ok.inj (checked.symm.trans (plain.spelled path member record found own))]
  refine (List.perm_ext_iff_of_nodup (distinct.map (Option.some_injective _)) ?_).mpr ?_
  · refine List.Nodup.map_on ?_ (List.nodup_dedup _)
    intro first one second two same
    obtain ⟨path, member, checked⟩ := mem_records.mp one
    obtain ⟨other, among, checked'⟩ := mem_records.mp two
    obtain ⟨row, here⟩ := resolved path member
    rw [← named path member first checked] at here
    have there := same.symm.trans here
    have firstly := evidenceRelpathChecked_idem checked
    have secondly := evidenceRelpathChecked_idem checked'
    obtain ⟨-, -, -, record, found, ⟨folds, filepath, pins⟩ | ⟨own, agent, filepath, -⟩⟩ := row_cases here
    · obtain ⟨-, -, -, record', found', ⟨folds', -, pins'⟩ | ⟨-, -, filepath', -⟩⟩ := row_cases there
      · exact plain.apart first one second two record record' found found' folds folds' (pins.trans pins'.symm)
      · rw [← filepath', filepath] at secondly
        exact (canonical_output_unchecked _ secondly).elim
    · obtain ⟨-, -, -, record', found', ⟨-, filepath', -⟩ | ⟨-, -, filepath', -⟩⟩ := row_cases there
      · rw [← filepath, filepath'] at firstly
        exact (canonical_output_unchecked _ firstly).elim
      · exact filepath.symm.trans filepath'
  · intro found
    rw [List.mem_map, List.mem_map]
    constructor
    · rintro ⟨row, member, rfl⟩
      obtain ⟨path, among, here⟩ := (members row).mp member
      obtain ⟨-, -, -, record, parsed, -⟩ := row_cases here
      obtain ⟨bytes, there, -⟩ := Option.bind_eq_some_iff.mp parsed
      obtain ⟨rel, checked⟩ := citedBytes_some there
      exact ⟨rel, mem_records.mpr ⟨path, among, checked⟩, (named path among rel checked).trans here⟩
    · rintro ⟨rel, member, rfl⟩
      obtain ⟨path, among, checked⟩ := mem_records.mp member
      obtain ⟨row, here⟩ := resolved path among
      exact ⟨row, (members row).mpr ⟨path, among, here⟩, (here.symm.trans (named path among rel checked).symm)⟩

/-- Each record has one row only where the citations are plain. -/
theorem plain_of_canonical (canonical : (rows.map some).Perm (call.records.map (call.row codec storage)))
    (distinct : rows.Nodup) (resolved : ∀ path ∈ call.citations, ∃ row, call.row codec storage path = some row)
    (members : ∀ row, row ∈ rows ↔ call.Cites codec storage row) : call.Plain codec storage where
  spelled path member record found own := by
    obtain ⟨row, here⟩ := resolved path member
    have listed : some row ∈ call.records.map (call.row codec storage) :=
      canonical.mem_iff.mp (List.mem_map_of_mem ((members row).mpr ⟨path, member, here⟩))
    obtain ⟨rel, among, there⟩ := List.mem_map.mp listed
    obtain ⟨other, -, checked⟩ := mem_records.mp among
    obtain ⟨-, -, -, record', found', ⟨folds, -⟩ | ⟨-, -, filepath, -⟩⟩ := row_cases here
    · rw [found] at found'
      cases found'
      exact (own folds).elim
    · obtain ⟨rel', checked'⟩ : ∃ rel', AgentFs.evidenceRelpathChecked path = .ok rel' := by
        obtain ⟨bytes, there, -⟩ := Option.bind_eq_some_iff.mp found
        exact citedBytes_some there
      obtain ⟨-, -, -, _, -, ⟨-, output, -⟩ | ⟨-, -, spelled, -⟩⟩ := row_cases there
      · rw [← filepath, output] at checked'
        exact (canonical_output_unchecked _ checked').elim
      · rw [← filepath, spelled]
        exact evidenceRelpathChecked_idem checked
  apart first one second two record record' found found' folds folds' same := by
    have injective := List.inj_on_of_nodup_map (canonical.nodup_iff.mp (distinct.map (Option.some_injective _)))
    apply injective one two
    have pinned : ∀ rel ∈ call.records, ∀ record, call.record codec storage rel = some record → record.tool = "reconcile" →
        ∃ row, call.row codec storage rel = some row ∧ row.citedFilepath = CANONICAL_OUTPUT ∧
          pinnedVersion codec record = (some row.citedAgentId, some row.citedBlobSha.hex) := by
      intro rel member record found folds
      obtain ⟨path, among, checked⟩ := mem_records.mp member
      obtain ⟨row, here⟩ := resolved path among
      have parsed : call.record codec storage path = some record := by
        rw [← found]
        unfold PersistCall.record
        rw [citedBytes_checked checked]
      rw [← row_fold checked parsed folds] at here
      obtain ⟨-, -, -, other, found', ⟨-, output, pins⟩ | ⟨own, -⟩⟩ := row_cases here
      · cases found.symm.trans found'
        exact ⟨row, here, output, pins⟩
      · cases found.symm.trans found'
        exact (own folds).elim
    obtain ⟨row, here, output, pins⟩ := pinned first one record found folds
    obtain ⟨row', there, output', pins'⟩ := pinned second two record' found' folds'
    obtain ⟨agent, sha⟩ := Prod.mk.inj (pins.symm.trans (same.trans pins'))
    rw [here, there, row_eq here there (Option.some.inj agent) (output.trans output'.symm)
      (congrArg BlobSha.mk (Option.some.inj sha))]

/-- The rows of a version that is new are one for each record cited, by its own path, exactly
when the citations are plain. -/
theorem citation_rows_iff {start final : σ × StructuralDb} {history : List Faults}
    {earlier : List (Except PersistError OutputId)} {id : OutputId} (fresh : call.rows codec start.2 = [])
    (ran : (persisting codec call).run start history = some (final, earlier ++ [.ok id])) :
    call.Canonical codec final.1 final.2 ↔ call.Plain codec start.1 := by
  obtain ⟨-, persisted, members⟩ := persisting_spec ran
  have partway : Partway codec call start final := by
    refine (persisting codec call).run_invariant (Partway codec call start) (.refl start) ?_ ran
    intro before faults after results held stepped
    obtain ⟨result, -, attempted⟩ := persisting_step stepped
    exact held.trans (attempt_spec attempted).1
  have distinct : (call.rows codec final.2).Nodup := by
    refine (persisting codec call).run_invariant (fun stores => (call.rows codec stores.2).Nodup) ?_ ?_ ran
    · rw [fresh]
      exact List.nodup_nil
    · intro before faults after results held stepped
      obtain ⟨result, -, attempted⟩ := persisting_step stepped
      exact attempt_nodup _ attempted held
  have same : ∀ path, call.row codec final.1 path = call.row codec start.1 path := fun path =>
    row_congr (partway.evidence path)
  have resolved : ∀ path ∈ call.citations, ∃ row, call.row codec start.1 path = some row := by
    intro path member
    obtain ⟨row, -, here⟩ := persisted.cited path member
    exact ⟨row, (same path).symm.trans here⟩
  have rows : ∀ row, row ∈ call.rows codec final.2 ↔ call.Cites codec start.1 row := by
    intro row
    unfold PersistCall.rows
    rw [List.mem_filter, members, decide_eq_true_eq]
    constructor
    · rintro ⟨old | cites, version⟩
      · have listed : row ∈ call.rows codec start.2 := List.mem_filter.mpr ⟨old, decide_eq_true version⟩
        rw [fresh] at listed
        cases listed
      · exact cites
    · intro ⟨path, among, here⟩
      obtain ⟨agent, output, body, -⟩ := row_cases here
      exact ⟨.inr ⟨path, among, here⟩, agent, output, body⟩
  unfold PersistCall.Canonical
  rw [List.map_congr_left fun path _ => same path]
  exact ⟨fun canonical => plain_of_canonical canonical distinct resolved rows,
    fun plain => Plain.canonical plain distinct resolved rows⟩

end Versions

section Spellings

private def searched : EvidenceRecord := ⟨⟨"5e"⟩, "search", .null, .null, ⟨0⟩⟩

private def fetched : EvidenceRecord := ⟨⟨"6f"⟩, "fetch", .null, .null, ⟨0⟩⟩

private def pressed : Codec :=
  { listedCodec [("Findings.", "a7e910a9438b7e01520920689ef3137a9eae68fd")] [⟨⟨1⟩⟩] with
    ofBytes := fun
      | .text _ => ⟨"a7e910a9438b7e01520920689ef3137a9eae68fd"⟩
      | .evidence record =>
        if record.tool = "fetch" then ⟨"02054551c512e35191c254dce05d09686b33ed7e"⟩
        else ⟨"afdd613cc613d6613158ca552304c9b0702f41fc"⟩
      | _ => ⟨""⟩ }

private def citing (citations : List String) : PersistCall := ⟨⟨⟨1⟩⟩, "a", "Findings.", citations⟩

private def kept : MemoryStorage × StructuralDb :=
  (⟨((∅ : AList fun _ : String => Content).insert "a/evidence/holds-5e.json" (.evidence searched)).insert
      "a/evidence/grows-6f.json" (.evidence fetched)⟩,
    ⟨[⟨⟨⟨0⟩⟩, "g", .null⟩], [⟨⟨⟨1⟩⟩, ⟨⟨0⟩⟩, "analyst"⟩], [], [], ∅, []⟩)

private def calm : Faults := ⟨fun _ => ⟨0⟩, 9, fun _ _ => false, 9⟩

/-- The database answers two calls and no more. -/
private def cutShort : Faults := { calm with calls := 2 }

private theorem citing_run {citations : List String} {result : Except PersistError OutputId}
    (ended : ((citing citations).attempt pressed calm kept).1 = result) :
    (persisting pressed (citing citations)).run kept [calm] =
      some (((citing citations).attempt pressed calm kept).2, [] ++ [result]) := by
  rw [← ended]
  rfl

private def both : PersistCall := citing ["evidence/holds-5e.json", "evidence/grows-6f.json"]

/-- Two records are cited, by a call that failed after the first row. -/
theorem citation_rows_iff_two_records : ∃ (final : MemoryStorage × StructuralDb) (failure : PersistError),
    (persisting pressed both).run kept [cutShort, calm] = some (final, [.error failure] ++ [.ok (.new "Findings.")]) ∧
      (both.Canonical pressed final.1 final.2 ↔ both.Plain pressed kept.1) ∧ both.Canonical pressed final.1 final.2 := by
  have evaluated : ((persisting pressed both).run kept [cutShort, calm]).any (fun ran =>
      ran.2 = [.error (.db .unavailable)] ++ [.ok (.new "Findings.")] ∧
        ((both.rows pressed ran.1.2).map some).Perm (both.records.map (both.row pressed ran.1.1))) = true := by
    decide +kernel
  obtain ⟨⟨final, results⟩, ran, checked⟩ := (Option.any_eq_true _ _).mp evaluated
  obtain ⟨rfl, canonical⟩ := of_decide_eq_true checked
  exact ⟨final, _, ran, citation_rows_iff rfl ran, canonical⟩

/-- One record, cited twice by two spellings of its path, has two rows. -/
theorem record_cited_twice :
    ¬ ∀ (codec : Codec) (call : PersistCall) (start final : MemoryStorage × StructuralDb) (faults : Faults) (id : OutputId),
        call.rows codec start.2 = [] →
        (persisting codec call).run start [faults] = some (final, [.ok id]) → call.Canonical codec final.1 final.2 := by
  intro told
  have ran := @citing_run ["evidence/holds-5e.json", "./evidence//holds-5e.json"] (.ok (.new "Findings.")) (by rfl)
  have canonical := told pressed _ kept _ calm _ rfl ran
  have lengths := canonical.length_eq
  revert lengths
  decide +kernel

end Spellings

end Coral.Proofs

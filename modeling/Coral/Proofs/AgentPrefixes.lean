import Coral.Proofs.EvidenceNames
import Coral.Proofs.PersistConvergence
import Coral.Temporal.FileActivities

/-! Each agent has its own directory. A write shows in the evidence of no other agent, and
in its own only where it is a record. -/

namespace Coral.Proofs
open Coral.Library Coral.Temporal LawfulStorage

private theorem digits_eq {first second : Nat} (bound : Nat)
    (same : ∀ place < bound, first / 16 ^ place % 16 = second / 16 ^ place % 16) :
    first % 16 ^ bound = second % 16 ^ bound := by
  induction bound with
  | zero => simp [Nat.mod_one]
  | succ bound ih =>
    rw [Nat.mod_pow_succ, Nat.mod_pow_succ, ih fun place below => same place (by omega), same bound (by omega)]

private theorem digitChar_injective : ∀ first < 16, ∀ second < 16, Nat.digitChar first = Nat.digitChar second →
    first = second := by decide

private theorem digitChar_plain : ∀ digit < 16, Nat.digitChar digit ≠ '-' ∧ Nat.digitChar digit ≠ '/' := by decide

private def digit (uuid : Uuid) (place : Nat) : Nat := uuid.bits.toNat / 16 ^ (31 - place) % 16

private theorem digit_lt (uuid : Uuid) (place : Nat) : digit uuid place < 16 := Nat.mod_lt _ (by decide)

private theorem dashless (uuid : Uuid) :
    uuid.hyphenated.toList.filter (· ≠ '-') = (List.range 32).map fun place => Nat.digitChar (digit uuid place) := by
  unfold Uuid.hyphenated
  rw [String.toList_ofList, List.filter_flatMap, List.map_eq_flatMap]
  congr 1
  funext place
  have plain : Nat.digitChar (digit uuid place) ≠ '-' := (digitChar_plain _ (digit_lt uuid place)).1
  change List.filter _ (if _ then ['-', Nat.digitChar (digit uuid place)] else [Nat.digitChar (digit uuid place)]) = _
  split <;> simp [plain]

theorem hyphenated_digits (uuid : Uuid) : uuid.hyphenated.toList.filter (· ≠ '-') =
    (List.range 32).map fun place => Nat.digitChar (uuid.bits.toNat / 16 ^ (31 - place) % 16) := dashless uuid

theorem hyphenated_injective : Function.Injective Uuid.hyphenated := by
  intro first second same
  have digits : ∀ place < 32, digit first place = digit second place := by
    intro place below
    have shown := dashless first
    rw [same, dashless second] at shown
    exact (digitChar_injective _ (digit_lt second place) _ (digit_lt first place)
      (List.map_inj_left.mp shown place (List.mem_range.mpr below))).symm
  have bits : first.bits.toNat % 16 ^ 32 = second.bits.toNat % 16 ^ 32 := by
    apply digits_eq
    intro place below
    have there := digits (31 - place) (by omega)
    unfold digit at there
    rwa [show 31 - (31 - place) = place by omega] at there
  have wide : ∀ uuid : Uuid, uuid.bits.toNat < 16 ^ 32 := fun uuid => uuid.bits.isLt
  rw [Nat.mod_eq_of_lt (wide first), Nat.mod_eq_of_lt (wide second)] at bits
  cases first
  cases second
  exact congrArg Uuid.mk (BitVec.eq_of_toNat_eq bits)

private theorem hyphenated_plain (uuid : Uuid) : uuid.hyphenated ≠ "" ∧ uuid.hyphenated ≠ "." ∧ uuid.hyphenated ≠ ".." ∧
    '/' ∉ uuid.hyphenated.toList := by
  have long : 32 ≤ uuid.hyphenated.toList.length := by
    have shown := congrArg List.length (dashless uuid)
    rw [List.length_map, List.length_range] at shown
    rw [← shown]
    exact List.length_filter_le _ _
  have short : ∀ text : String, text.toList.length < 32 → uuid.hyphenated ≠ text := by
    rintro text below rfl
    omega
  refine ⟨short _ (by decide), short _ (by decide), short _ (by decide), ?_⟩
  unfold Uuid.hyphenated
  rw [String.toList_ofList, List.mem_flatMap]
  rintro ⟨place, -, member⟩
  have plain : Nat.digitChar (digit uuid place) ≠ '/' := (digitChar_plain _ (digit_lt uuid place)).2
  change '/' ∈ (if _ then ['-', Nat.digitChar (digit uuid place)] else [Nat.digitChar (digit uuid place)]) at member
  split at member <;> simp [plain.symm] at member

def idName (uuid : Uuid) : Name := ⟨uuid.hyphenated, hyphenated_plain uuid⟩

section Prefixes

theorem openForAgent_starts (graphId : GraphId) (agentId : AgentId) :
    AgentFs.openForAgent graphId agentId = ⟨agentWorkflowId graphId.toString agentId.toString ++ "/"⟩ :=
  attach_closed (.inr (endsWith_slash _))

/-- A workflow's own handle and the other agents' way to its files come to the same prefix. -/
theorem attach_forAgent (graphId : GraphId) (agentId : AgentId) :
    AgentFs.attach (FsHandle.forAgent graphId agentId).storagePrefix = .openForAgent graphId agentId := by
  rw [openForAgent_starts]
  unfold AgentFs.attach FsHandle.forAgent
  rw [if_pos]
  obtain ⟨nonempty, -, -, free⟩ := hyphenated_plain agentId.uuid
  obtain empty | ⟨start, last, ending⟩ := agentId.uuid.hyphenated.toList.eq_nil_or_concat'
  · exact (nonempty (String.toList_inj.mp empty)).elim
  have whole : (agentWorkflowId graphId.toString agentId.toString).toList =
      ("graphs/" ++ graphId.toString ++ "/agents/").toList ++ start ++ [last] := by
    rw [List.append_assoc, ← ending, ← String.toList_append]
    rfl
  constructor
  · intro none
    have := congrArg String.toList none
    rw [whole] at this
    simp at this
  · rw [Bool.eq_false_iff]
    intro closed
    obtain ⟨base, same⟩ := List.isSuffixOf_iff_suffix.mp closed
    rw [whole] at same
    obtain ⟨-, slash⟩ := List.append_inj' same rfl
    rw [ending, ← slash] at free
    exact free (List.mem_append_right _ (List.mem_singleton.mpr rfl))

theorem attached_openForAgent (graphId : GraphId) (agentId : AgentId) : Attached (.openForAgent graphId agentId) :=
  attached_attach _

def graphsName : Name := ⟨"graphs", by decide⟩

def agentsName : Name := ⟨"agents", by decide⟩

theorem keyPath_agent (graphId : GraphId) (agentId : AgentId) (rest : String) :
    keyPath ((AgentFs.openForAgent graphId agentId).key rest) =
      [graphsName, idName graphId.uuid, agentsName, idName agentId.uuid] ++ keyPath rest := by
  have whole : (AgentFs.openForAgent graphId agentId).key rest =
      graphsName.text ++ "/" ++ ((idName graphId.uuid).text ++ "/" ++
        (agentsName.text ++ "/" ++ ((idName agentId.uuid).text ++ "/" ++ rest))) := by
    rw [openForAgent_starts]
    apply String.toList_inj.mp
    simp [AgentFs.key, agentWorkflowId, graphsName, agentsName, idName, GraphId.toString, AgentId.toString]
  rw [whole, keyPath_dir, keyPath_dir, keyPath_dir, keyPath_dir]
  rfl

theorem idName_inj {first second : Uuid} : idName first = idName second ↔ first = second := by
  constructor
  · exact fun same => hyphenated_injective (congrArg Name.text same)
  · exact congrArg idName

/-- Two keys of a graph's agents name one place only if both the agents and the paths are one. -/
theorem keyPath_agent_inj {graphId : GraphId} {agentId other : AgentId} {first second : String}
    (same : keyPath ((AgentFs.openForAgent graphId agentId).key first) =
      keyPath ((AgentFs.openForAgent graphId other).key second)) :
    agentId = other ∧ keyPath first = keyPath second := by
  rw [keyPath_agent, keyPath_agent] at same
  simp only [List.cons_append, List.nil_append, List.cons.injEq, idName_inj, true_and] at same
  obtain ⟨agent, rest⟩ := same
  cases agentId
  cases other
  exact ⟨congrArg AgentId.mk agent, rest⟩

end Prefixes

theorem relpath_joinPath (tool slugSeed : String) (args result : Json) (now : DateTime) :
    ∃ name : Name, evidenceRelpath slugSeed (EvidenceRecord.new tool args result now).id =
      joinPath [evidenceName, name] ∧ name ≠ tailName := by
  obtain ⟨name, text, free⟩ := relpath_name ⟨tool, args, result, now, slugSeed, now⟩
  refine ⟨name, text, ?_⟩
  rintro rfl
  revert free
  decide

section Evidence

variable {σ : Type} [AgentStorage σ] [LawfulStorage σ] {graphId : GraphId} {agentId : AgentId} {storage after : σ}

/-- No agent's evidence is changed. -/
def SameEvidence (graphId : GraphId) (storage after : σ) : Prop :=
  ∀ other path, citedBytes (.openForAgent graphId other) after path = citedBytes (.openForAgent graphId other) storage path

theorem SameEvidence.refl (storage : σ) : SameEvidence graphId storage storage := fun _ _ => rfl

theorem SameEvidence.trans {middle : σ} (first : SameEvidence graphId storage middle)
    (second : SameEvidence graphId middle after) : SameEvidence graphId storage after :=
  fun other path => (second other path).trans (first other path)

/-- A process sees what is in the store. -/
theorem citedBytes_stopping (fs : AgentFs) (store : Stopping σ) (path : String) :
    citedBytes fs store path = citedBytes fs store.storage path := rfl

/-- What a write changes of the evidence is the record at its own path. -/
theorem citedBytes_sets {rest : String} {value : Option Content}
    (sets : Sets storage after ((AgentFs.openForAgent graphId agentId).key rest) value) (other : AgentId) (path : String) :
    citedBytes (.openForAgent graphId other) after path = citedBytes (.openForAgent graphId other) storage path ∨
      other = agentId ∧ ∃ rel, AgentFs.evidenceRelpathChecked path = .ok rel ∧ keyPath rel = keyPath rest ∧
        citedBytes (.openForAgent graphId other) after path = value := by
  unfold citedBytes
  split
  · rename_i rel checked
    by_cases here : (place ((AgentFs.openForAgent graphId other).key rel) : Place σ) =
        place ((AgentFs.openForAgent graphId agentId).key rest)
    · obtain ⟨agent, same⟩ := keyPath_agent_inj (path_of_place _ _ here)
      refine .inr ⟨agent, rel, checked, same, ?_⟩
      unfold viewAt
      rw [sets, if_pos here]
    · left
      unfold viewAt
      rw [sets, if_neg here]
  · exact .inl rfl

/-- The path of a record is below `evidence/` and not the sidecar's. -/
theorem checked_keyPath {path rel : String} (checked : AgentFs.evidenceRelpathChecked path = .ok rel) :
    (keyPath rel).head? = some evidenceName ∧ keyPath rel ≠ [evidenceName, tailName] ∧ rel = joinPath (keyPath rel) := by
  obtain ⟨cleaned, below, record⟩ := evidenceRelpathChecked_ok checked
  obtain ⟨parts, rfl⟩ := cleanRelpath_ok cleaned
  obtain ⟨more, whole⟩ := List.isPrefixOf_iff_prefix.mp below
  have named : joinPath parts = evidenceName.text ++ "/" ++ String.ofList more := by
    have last : (String.ofList more).toList = more := String.toList_ofList
    apply String.toList_inj.mp
    rw [← whole, String.toList_append, String.toList_append, last]
    rfl
  rw [keyPath_joinPath]
  refine ⟨?_, ?_, rfl⟩
  · rw [← keyPath_joinPath parts, named, keyPath_dir]
    rfl
  · rintro rfl
    exact record (by decide)

omit [AgentStorage σ] [LawfulStorage σ] in
/-- The path of a record may be cited as it is. -/
theorem relpath_checked (tool slugSeed : String) (args result : Json) (now : DateTime) :
    AgentFs.evidenceRelpathChecked (evidenceRelpath slugSeed (EvidenceRecord.new tool args result now).id) =
      .ok (evidenceRelpath slugSeed (EvidenceRecord.new tool args result now).id) := by
  obtain ⟨name, named, unlisted⟩ := relpath_joinPath tool slugSeed args result now
  rw [named]
  unfold AgentFs.evidenceRelpathChecked AgentFs.cleanRelpath
  rw [plainParts_joinPath (List.cons_ne_nil _ _)]
  simp only [bind, Except.bind]
  have whole : joinPath [evidenceName, name] = "evidence/" ++ name.text := rfl
  have below : startsWithText (joinPath [evidenceName, name]) "evidence/" = true := by
    rw [whole]
    exact List.isPrefixOf_iff_prefix.mpr ⟨name.text.toList, by rw [String.toList_append]⟩
  rw [if_neg]
  · rfl
  · rintro (directory | outside | sidecar)
    · have same := joinPath_injective (show joinPath [evidenceName, name] = joinPath [evidenceName] from directory)
      simp at same
    · rw [below] at outside
      cases outside
    · have same := joinPath_injective (show joinPath [evidenceName, name] = joinPath [evidenceName, tailName] from sidecar)
      exact unlisted (by simpa using same)

theorem sameEvidence_sets {rest : String} {value : Option Content}
    (sets : Sets storage after ((AgentFs.openForAgent graphId agentId).key rest) value)
    (outside : (keyPath rest).head? ≠ some evidenceName ∨ keyPath rest = [evidenceName, tailName]) :
    SameEvidence graphId storage after := by
  intro other path
  rcases citedBytes_sets sets other path with same | ⟨-, rel, checked, place, -⟩
  · exact same
  · obtain ⟨below, record, -⟩ := checked_keyPath checked
    rw [place] at below record
    rcases outside with apart | tail
    · exact (apart below).elim
    · exact (record tail).elim

end Evidence

end Coral.Proofs

import Coral.Proofs.BackendRefinement
import Coral.Proofs.CommitManifest
import Coral.Proofs.LastingStorage

/-! The keys that the agents' own calls go to, on the store on the disk. None lies below
another, so the disk does not fail there unless something else is in their way. -/

namespace Coral.Proofs
open Coral.Library LawfulStorage

/-- A directory is at none of the keys, and a file is above none. -/
def Keyspace.Clear (space : Keyspace) (disk : LocalStorage) : Prop :=
  ∀ key, space.keys key → disk.tree.shape.clear (keyPath key) = true

section Clear

variable {space : Keyspace} {disk after : LocalStorage} {key : String}

theorem clear_iff {shape : Shape Name} {path : List Name} :
    shape.clear path = true ↔ shape path ≠ some .dir ∧ ∀ above, above <+: path.dropLast → shape above ≠ some .file := by
  unfold Shape.clear
  rw [Bool.and_eq_true, decide_eq_true_eq, Bool.not_eq_true', Bool.eq_false_iff, ne_eq, ne_eq, Shape.blocked_iff]
  push Not
  rfl

/-- What comes to be at a key, or above it, is in the way of no other. -/
theorem Keyspace.Clear.change (clear : space.Clear disk) (used : space.keys key)
    (files : ∀ path, after.tree.shape path = some .file → disk.tree.shape path = some .file ∨ path = keyPath key)
    (dirs : ∀ path, after.tree.shape path = some .dir →
      disk.tree.shape path = some .dir ∨ path <+: keyPath key ∧ path ≠ keyPath key) : space.Clear after := by
  intro other used'
  obtain ⟨file, free⟩ := clear_iff.mp (clear other used')
  refine clear_iff.mpr ⟨?_, ?_⟩
  · intro dir
    rcases dirs _ dir with before | ⟨above, proper⟩
    · exact file before
    · exact proper (congrArg keyPath (space.apart other key used' used above))
  · intro above below new
    rcases files _ new with before | here
    · exact free above below before
    · rw [here] at below
      have same := space.apart key other used used' (below.trans (List.dropLast_prefix _))
      rw [same] at below
      have shorter := below.length_le
      have proper := List.length_pos_iff.mpr (Keyspace.nonempty used')
      rw [List.length_dropLast] at shorter
      omega

theorem Keyspace.Clear.put (clear : space.Clear disk) (used : space.keys key) (value : Content) :
    ∃ after, AgentStorage.put disk key value = .ok after ∧ space.Clear after := by
  obtain ⟨after, written, wrote⟩ := put_clear (clear key used) value
  have shape := FileTree.shape_write wrote
  refine ⟨after, raw_ok written, clear.change used ?_ ?_⟩
  · intro path file
    rw [shape] at file
    unfold Shape.write at file
    split at file
    · exact .inr ‹_›
    · split at file
      · cases file
      · exact .inl file
  · intro path dir
    rw [shape] at dir
    unfold Shape.write at dir
    split at dir
    · cases dir
    · rename_i proper
      split at dir
      · rename_i above
        exact .inr ⟨above, proper⟩
      · exact .inl dir

private theorem createDirAll_shape {tree middle : FileTree Name Content} {path : List Name}
    (made : tree.createDirAll path.dropLast = .ok middle) (proper : path ≠ []) :
    (∀ other, middle.shape other = some .file → tree.shape other = some .file) ∧
      ∀ other, middle.shape other = some .dir → tree.shape other = some .dir ∨ other <+: path ∧ other ≠ path := by
  have lookups := (FileTree.createDirAll_ok made).2
  have shorter : ¬ path <+: path.dropLast := by
    intro above
    have shorter := above.length_le
    have := List.length_pos_iff.mpr proper
    rw [List.length_dropLast] at shorter
    omega
  refine ⟨?_, ?_⟩
  · intro other file
    obtain ⟨content, found⟩ := FileTree.shape_file_iff.mp file
    rw [lookups] at found
    split at found
    · cases found
    · exact FileTree.shape_file_iff.mpr ⟨content, found⟩
  · intro other dir
    by_cases above : other <+: path.dropLast
    · exact .inr ⟨above.trans (List.dropLast_prefix _), fun same => shorter (same ▸ above)⟩
    · rw [FileTree.shape_dir_iff, lookups, if_neg above, ← FileTree.shape_dir_iff] at dir
      exact .inl dir

theorem Keyspace.Clear.putIfAbsent (clear : space.Clear disk) (used : space.keys key) (value : Content) :
    ∃ outcome after, AgentStorage.putIfAbsent disk key value = .ok (outcome, after) ∧ space.Clear after := by
  have free := clear key used
  obtain ⟨middle, made⟩ : ∃ middle, disk.tree.createDirAll (keyPath key).dropLast = .ok middle := by
    cases created : disk.tree.createDirAll (keyPath key).dropLast with
    | ok middle => exact ⟨middle, rfl⟩
    | error errno =>
      unfold Shape.clear at free
      rw [FileTree.createDirAll_error created] at free
      simp at free
  obtain ⟨files, dirs⟩ := createDirAll_shape made (Keyspace.nonempty used)
  change ∃ outcome after, disk.putIfAbsent key value = _ ∧ _
  simp only [LocalStorage.putIfAbsent, made]
  cases found : middle.lookup (keyPath key) with
  | none =>
    have dir : middle.shape (keyPath key).dropLast = some .dir := by
      rw [FileTree.shape_dir_iff, (FileTree.createDirAll_ok made).2, if_pos (List.prefix_refl _)]
    obtain ⟨tree, created⟩ := FileTree.createNew_absent found dir value
    have lookups := (FileTree.createNew_ok created).2
    rw [created]
    refine ⟨.created, ⟨tree⟩, rfl, clear.change used ?_ ?_⟩
    · intro path file
      by_cases here : path = keyPath key
      · exact .inr here
      · obtain ⟨content, there⟩ := FileTree.shape_file_iff.mp file
        rw [lookups, if_neg here] at there
        exact .inl (files path (FileTree.shape_file_iff.mpr ⟨content, there⟩))
    · intro path dir
      rw [FileTree.shape_dir_iff, lookups] at dir
      split at dir
      · cases dir
      · exact dirs path (FileTree.shape_dir_iff.mpr dir)
  | some entry =>
    rw [FileTree.createNew_present found]
    exact ⟨.existed, ⟨middle⟩, rfl, clear.change used (fun path file => .inl (files path file)) dirs⟩

end Clear

/-- A disk where nothing is in the way of the keys answers at them. -/
def Keyspace.footing (space : Keyspace) : Footing LocalStorage where
  keeps := space.keys
  lists start := ∃ key, space.keys key ∧ LocalStorage.scanRoot start <+: (keyPath key).dropLast
  lasts disk _ := space.Clear disk
  fewer _ clear := clear
  get clear used := ⟨_, raw_ok (get_clear (clear _ used))⟩
  list clear listed after limit := by
    obtain ⟨key, used, above⟩ := listed
    exact ⟨_, list_of_keys ((clear_iff.mp (clear key used)).2 _ above) after limit⟩
  put clear used value := clear.put used value
  putIfAbsent clear used value := clear.putIfAbsent used value

/-- No directory is in the way of a key. -/
theorem Keyspace.frees (space : Keyspace) : space.footing.Frees := by
  intro disk writes key clear used bare
  change disk.tree.read (keyPath key) = none at bare
  change disk.tree.lookup (keyPath key) = none
  obtain ⟨free, -⟩ := clear_iff.mp (clear key used)
  unfold FileTree.read at bare
  cases found : disk.tree.lookup (keyPath key) with
  | none => rfl
  | some entry =>
    cases entry with
    | file content =>
      rw [found] at bare
      cases bare
    | dir => exact (free (FileTree.shape_dir_iff.mpr found)).elim

theorem Keyspace.clear_empty (space : Keyspace) : space.Clear ⟨.empty⟩ := by
  intro key used
  have nowhere : ∀ path : List Name, path ≠ [] → (FileTree.empty : FileTree Name Content).lookup path = none :=
    fun path proper => (FileTree.lookup_empty path).trans (if_neg proper)
  refine clear_iff.mpr ⟨?_, ?_⟩
  · intro dir
    rw [FileTree.shape_dir_iff, nowhere _ (Keyspace.nonempty used)] at dir
    cases dir
  · intro above _ file
    obtain ⟨content, found⟩ := FileTree.shape_file_iff.mp file
    rw [FileTree.lookup_empty] at found
    split at found <;> cases found

theorem viewAt_empty (key : String) : viewAt (⟨.empty⟩ : LocalStorage) key = none := FileTree.read_empty (keyPath key)

section Agents

/-- The files that an agent's own calls go to. -/
def OwnPath (rest : String) : Prop :=
  rest ∈ CANONICAL_OUTPUT :: openedKeys ∨ ∃ observed : Observed, rest = observed.relpath

variable {rest : String}

theorem OwnPath.cases (own : OwnPath rest) :
    rest = joinPath [mandateName] ∨ ∃ dir name, dir ≠ mandateName ∧ rest = joinPath [dir, name] := by
  rcases own with opened | ⟨observed, rfl⟩
  · simp only [openedKeys, List.mem_cons, List.not_mem_nil, or_false] at opened
    rcases opened with rfl | rfl | rfl | rfl
    · exact .inr ⟨⟨"outputs", by decide⟩, ⟨"output.md", by decide⟩, by decide, by decide⟩
    · exact .inl (by decide)
    · exact .inr ⟨evidenceName, tailName, by decide, by decide⟩
    · exact .inr ⟨⟨"notes", by decide⟩, tailName, by decide, by decide⟩
  · obtain ⟨name, path, -⟩ := relpath_name observed
    exact .inr ⟨evidenceName, name, by decide, path⟩

theorem OwnPath.joined (own : OwnPath rest) : rest = joinPath (keyPath rest) ∧ keyPath rest ≠ [] := by
  rcases own.cases with rfl | ⟨dir, name, -, rfl⟩
  · rw [keyPath_joinPath]
    exact ⟨rfl, List.cons_ne_nil _ _⟩
  · rw [keyPath_joinPath]
    exact ⟨rfl, List.cons_ne_nil _ _⟩

/-- None lies below another. -/
theorem OwnPath.apart {other : String} (own : OwnPath rest) (own' : OwnPath other)
    (above : keyPath rest <+: keyPath other) : rest = other := by
  rcases own.cases with rfl | ⟨dir, name, plain, rfl⟩
  · rcases own'.cases with rfl | ⟨dir', name', plain', rfl⟩
    · rfl
    · rw [keyPath_joinPath, keyPath_joinPath, List.cons_prefix_cons] at above
      exact (plain' above.1.symm).elim
  · rcases own'.cases with rfl | ⟨dir', name', -, rfl⟩
    · rw [keyPath_joinPath, keyPath_joinPath, List.cons_prefix_cons] at above
      exact (plain above.1).elim
    · rw [keyPath_joinPath, keyPath_joinPath] at above
      rw [above.eq_of_length rfl]

def agentKeys : Keyspace where
  keys key := ∃ graphId agentId rest, OwnPath rest ∧ key = (AgentFs.openForAgent graphId agentId).key rest
  scopes _ := False
  plain := by
    rintro key ⟨graphId, agentId, rest, own, rfl⟩
    obtain ⟨whole, proper⟩ := own.joined
    refine ⟨agentRoot graphId agentId ++ keyPath rest, List.append_ne_nil_of_right_ne_nil _ proper, ?_⟩
    rw [← key_joinPath proper, ← whole]
  apart := by
    rintro key other ⟨graphId, agentId, rest, own, rfl⟩ ⟨graphId', agentId', rest', own', rfl⟩ above
    rw [keyPath_agent, keyPath_agent] at above
    simp only [List.cons_append, List.nil_append, List.cons_prefix_cons, idName_inj, true_and] at above
    obtain ⟨graph, agent, below⟩ := above
    cases graphId
    cases graphId'
    cases agentId
    cases agentId'
    obtain rfl := graph
    obtain rfl := agent
    rw [own.apart own' below]

theorem OwnPath.kept (own : OwnPath rest) (graphId : GraphId) (agentId : AgentId) :
    agentKeys.keys ((AgentFs.openForAgent graphId agentId).key rest) := ⟨graphId, agentId, rest, own, rfl⟩

/-- A directory that an agent lists has a file of these keys in it. -/
theorem agentKeys_listed (graphId : GraphId) (agentId : AgentId) {base rest : String} (own : OwnPath rest)
    (above : keyPath base = (keyPath rest).dropLast) :
    agentKeys.footing.lists ((AgentFs.openForAgent graphId agentId).key (base ++ "/")) := by
  refine ⟨_, OwnPath.kept own graphId agentId, ?_⟩
  have start : (AgentFs.openForAgent graphId agentId).key (base ++ "/") =
      (AgentFs.openForAgent graphId agentId).key base ++ "/" := String.append_assoc.symm
  rw [start, scanRoot_dir, keyPath_agent, keyPath_agent, List.dropLast_append_of_ne_nil own.joined.2, above]

/-- The disk answers at an agent's own files. -/
theorem agentKeys_houses (graphId : GraphId) (agentId : AgentId) :
    agentKeys.footing.Houses (.openForAgent graphId agentId) where
  written key member := OwnPath.kept (.inl member) graphId agentId
  indexed dir member := by
    rcases List.mem_pair.mp member with rfl | rfl
    · exact @agentKeys_listed graphId agentId "evidence" EVIDENCE_TAIL_SUFFIX (.inl (by simp [openedKeys])) (by decide)
    · exact @agentKeys_listed graphId agentId "notes" NOTES_TAIL_SUFFIX (.inl (by simp [openedKeys])) (by decide)
  recorded observed := OwnPath.kept (.inr ⟨observed, rfl⟩) graphId agentId

theorem agentKeys_finds (graphId : GraphId) (agentId : AgentId) (observed : Observed) :
    agentKeys.footing.Finds (.openForAgent graphId agentId) [observed.relpath] := by
  intro path member rel checked
  rw [List.mem_singleton.mp member] at checked
  have same : rel = observed.relpath := Except.ok.inj (checked.symm.trans
    (relpath_checked observed.tool observed.slugSeed observed.args observed.result observed.createdAt))
  exact OwnPath.kept (.inr ⟨observed, same⟩) graphId agentId

end Agents

end Coral.Proofs

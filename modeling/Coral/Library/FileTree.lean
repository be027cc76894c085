import Mathlib.Data.List.AList
import Mathlib.Data.List.Infix

/-! File trees: paths are lists of names, every entry lies in a directory, and calls fail
only because of the shape of the path. -/

namespace Coral.Library

universe u v

private theorem prefix_dropLast {κ : Type u} {path other : List κ} :
    other <+: path.dropLast ∧ path ≠ [] ↔ other <+: path ∧ other ≠ path := by
  induction path using List.reverseRecOn with
  | nil =>
    simp only [List.dropLast_nil, List.prefix_nil, ne_eq, not_true_eq_false, and_false, false_iff, not_and, not_not]
    exact id
  | append_singleton path name _ =>
    rw [List.dropLast_concat, List.prefix_concat_iff]
    constructor
    · rintro ⟨above, -⟩
      refine ⟨.inr above, ?_⟩
      rintro rfl
      exact absurd above.length_le (by simp)
    · rintro ⟨whole | above, other⟩
      · exact (other whole).elim
      · exact ⟨above, by simp⟩

inductive Errno where
  | notFound
  | notADirectory
  | isADirectory
  | alreadyExists
deriving DecidableEq

inductive Kind where
  | file
  | dir
deriving DecidableEq

/-- Which paths there are, without what the files hold. -/
abbrev Shape (κ : Type u) := List κ → Option Kind

namespace Shape

variable {κ : Type u}

/-- Some entry on the way to the path, the path's own included, is a file. -/
def blocked (shape : Shape κ) (path : List κ) : Bool := path.inits.any fun above => shape above = some .file

/-- A file is at the path, or could be: no directory is there, and no file above. -/
def clear (shape : Shape κ) (path : List κ) : Bool := shape path ≠ some .dir && !shape.blocked path.dropLast

theorem blocked_iff {shape : Shape κ} {path : List κ} :
    shape.blocked path = true ↔ ∃ above, above <+: path ∧ shape above = some .file := by
  unfold blocked
  simp only [List.any_eq_true, List.mem_inits, decide_eq_true_eq]

theorem not_file_above {shape : Shape κ} {path above : List κ} (clear : shape.clear path = true)
    (earlier : above <+: path) (other : above ≠ path) : shape above ≠ some .file := by
  intro file
  have free : shape.blocked path.dropLast = false := by
    unfold Shape.clear at clear
    simpa using (Bool.and_eq_true_iff.mp clear).2
  rw [blocked_iff.mpr ⟨above, (prefix_dropLast.mpr ⟨earlier, other⟩).1, file⟩] at free
  cases free

variable [DecidableEq κ]

def write (shape : Shape κ) (path : List κ) : Shape κ := fun other =>
  if other = path then some .file else if other <+: path then some .dir else shape other

def remove (shape : Shape κ) (path : List κ) : Shape κ := fun other => if other = path then none else shape other

end Shape

inductive Entry (α : Type v) where
  | file (content : α)
  | dir
deriving DecidableEq

namespace Entry

variable {α : Type v}

def content? : Entry α → Option α
  | .file content => some content
  | .dir => none

def kind : Entry α → Kind
  | .file _ => .file
  | .dir => .dir

end Entry

structure FileTree (κ : Type u) (α : Type v) [DecidableEq κ] where
  entries : AList fun _ : List κ => Entry α
  root : entries.lookup [] = some .dir
  closed : ∀ path name entry, entries.lookup (path ++ [name]) = some entry → entries.lookup path = some .dir

namespace FileTree

variable {κ : Type u} {α : Type v} [DecidableEq κ]

def lookup (tree : FileTree κ α) (path : List κ) : Option (Entry α) := tree.entries.lookup path

@[simp] theorem lookup_root (tree : FileTree κ α) : tree.lookup [] = some .dir := tree.root

def empty : FileTree κ α where
  entries := (∅ : AList fun _ : List κ => Entry α).insert [] .dir
  root := AList.lookup_insert _
  closed path name entry found := by
    rw [AList.lookup_insert_ne (by simp)] at found
    cases found

theorem lookup_empty (path : List κ) : (empty : FileTree κ α).lookup path = if path = [] then some .dir else none := by
  by_cases root : path = []
  · rw [if_pos root, root]
    exact lookup_root _
  · rw [if_neg root]
    exact AList.lookup_insert_ne root

theorem lookup_above (tree : FileTree κ α) {path rest : List κ} {entry : Entry α}
    (found : tree.lookup (path ++ rest) = some entry) (proper : rest ≠ []) : tree.lookup path = some .dir := by
  induction rest using List.reverseRecOn generalizing entry with
  | nil => exact (proper rfl).elim
  | append_singleton rest name ih =>
    rw [← List.append_assoc] at found
    have parent := tree.closed _ _ entry found
    by_cases here : rest = []
    · rw [here, List.append_nil] at parent
      exact parent
    · exact ih parent here

/-- Nothing lies below a file. -/
theorem lookup_below (tree : FileTree κ α) {path other : List κ} {content : α}
    (file : tree.lookup path = some (.file content)) (below : path <+: other) (proper : other ≠ path) :
    tree.lookup other = none := by
  obtain ⟨rest, rfl⟩ := below
  cases found : tree.lookup (path ++ rest) with
  | none => rfl
  | some entry =>
    rw [tree.lookup_above found (by rintro rfl; simp at proper)] at file
    cases file

theorem lookup_parent (tree : FileTree κ α) {path : List κ} {content : α}
    (file : tree.lookup path = some (.file content)) : tree.lookup path.dropLast = some .dir := by
  by_cases root : path = []
  · rw [root, lookup_root] at file
    cases file
  · rw [← List.dropLast_concat_getLast root] at file
    exact tree.closed _ _ _ file

/-- A directory may not become a file while it is one. -/
def insert (tree : FileTree κ α) (path : List κ) (entry : Entry α)
    (kept : tree.lookup path = some .dir → entry = .dir) (parent : tree.lookup path.dropLast = some .dir) :
    FileTree κ α where
  entries := tree.entries.insert path entry
  root := by
    by_cases here : path = []
    · subst here
      rw [AList.lookup_insert, kept tree.root]
    · rw [AList.lookup_insert_ne (Ne.symm here)]
      exact tree.root
  closed above name other found := by
    have directory : tree.lookup above = some .dir := by
      by_cases here : above ++ [name] = path
      · rw [← here, List.dropLast_concat] at parent
        exact parent
      · rw [AList.lookup_insert_ne here] at found
        exact tree.closed above name other found
    by_cases same : above = path
    · subst same
      rw [AList.lookup_insert, kept directory]
    · rw [AList.lookup_insert_ne same]
      exact directory

theorem lookup_insert (tree : FileTree κ α) (path other : List κ) (entry : Entry α)
    (kept : tree.lookup path = some .dir → entry = .dir) (parent : tree.lookup path.dropLast = some .dir) :
    (tree.insert path entry kept parent).lookup other = if other = path then some entry else tree.lookup other := by
  by_cases same : other = path
  · subst same
    rw [if_pos rfl]
    exact AList.lookup_insert _
  · rw [if_neg same]
    exact AList.lookup_insert_ne same

def eraseFile (tree : FileTree κ α) (path : List κ) (content : α) (found : tree.lookup path = some (.file content)) :
    FileTree κ α where
  entries := tree.entries.erase path
  root := by
    rw [AList.lookup_erase_ne]
    · exact tree.root
    · rintro rfl
      rw [lookup_root] at found
      cases found
  closed above name other there := by
    have directory : tree.lookup above = some .dir := by
      by_cases here : above ++ [name] = path
      · rw [here, AList.lookup_erase] at there
        cases there
      · rw [AList.lookup_erase_ne here] at there
        exact tree.closed above name other there
    rw [AList.lookup_erase_ne]
    · exact directory
    · rintro rfl
      rw [directory] at found
      cases found

theorem lookup_eraseFile (tree : FileTree κ α) (path other : List κ) (content : α)
    (found : tree.lookup path = some (.file content)) :
    (tree.eraseFile path content found).lookup other = if other = path then none else tree.lookup other := by
  by_cases same : other = path
  · subst same
    rw [if_pos rfl]
    exact AList.lookup_erase _ _
  · rw [if_neg same]
    exact AList.lookup_erase_ne same

def shape (tree : FileTree κ α) : Shape κ := fun path => (tree.lookup path).map Entry.kind

theorem shape_dir_iff {tree : FileTree κ α} {path : List κ} :
    tree.shape path = some .dir ↔ tree.lookup path = some .dir := by
  unfold shape
  cases tree.lookup path with
  | none => simp
  | some entry => cases entry <;> simp [Entry.kind]

theorem shape_file_iff {tree : FileTree κ α} {path : List κ} :
    tree.shape path = some .file ↔ ∃ content, tree.lookup path = some (.file content) := by
  unfold shape
  cases tree.lookup path with
  | none => simp
  | some entry => cases entry <;> simp [Entry.kind]

theorem shape_none_iff {tree : FileTree κ α} {path : List κ} :
    tree.shape path = none ↔ tree.lookup path = none := Option.map_eq_none_iff

def files (tree : FileTree κ α) : List (List κ) := tree.entries.keys.filter fun path => tree.shape path = some .file

theorem mem_files {tree : FileTree κ α} {path : List κ} : path ∈ tree.files ↔ tree.shape path = some .file := by
  unfold files
  rw [List.mem_filter, decide_eq_true_eq]
  refine ⟨And.right, fun file => ⟨?_, file⟩⟩
  obtain ⟨content, found⟩ := shape_file_iff.mp file
  have present : (tree.entries.lookup path).isSome = true := by
    rw [show tree.entries.lookup path = some (.file content) from found]
    rfl
  exact AList.mem_keys.mp (AList.lookup_isSome.mp present)

theorem nodup_files (tree : FileTree κ α) : tree.files.Nodup := tree.entries.keys_nodup.filter _

theorem clear_of_file {tree : FileTree κ α} {path : List κ} (file : tree.shape path = some .file) :
    tree.shape.clear path = true := by
  have free : tree.shape.blocked path.dropLast = false := by
    rw [Bool.eq_false_iff]
    intro blocked
    obtain ⟨above, earlier, other⟩ := Shape.blocked_iff.mp blocked
    obtain ⟨content, found⟩ := shape_file_iff.mp file
    have proper : path ≠ [] := by
      rintro rfl
      rw [shape_dir_iff.mpr tree.root] at file
      cases file
    obtain ⟨⟨rest, rfl⟩, apart⟩ := prefix_dropLast.mp ⟨earlier, proper⟩
    rw [shape_dir_iff.mpr (tree.lookup_above found (by rintro rfl; simp at apart))] at other
    cases other
  simp [Shape.clear, file, free]

theorem blocked_of_absent {tree : FileTree κ α} {path : List κ} (absent : tree.lookup path = none) :
    tree.shape.blocked path = !tree.shape.clear path := by
  have proper : path ≠ [] := by
    rintro rfl
    rw [lookup_root] at absent
    cases absent
  have same : tree.shape.blocked path = tree.shape.blocked path.dropLast := by
    rw [Bool.eq_iff_iff, Shape.blocked_iff, Shape.blocked_iff]
    refine exists_congr fun above => and_congr_left fun file => ?_
    constructor
    · intro earlier
      refine (prefix_dropLast.mpr ⟨earlier, ?_⟩).1
      rintro rfl
      rw [shape_none_iff.mpr absent] at file
      cases file
    · exact fun earlier => earlier.trans (List.dropLast_prefix _)
  rw [same]
  simp [Shape.clear, shape_none_iff.mpr absent]

/-- What `open`, `stat` or `unlink` meets at the path. -/
def resolve (tree : FileTree κ α) (path : List κ) : Except Errno (Entry α) :=
  match tree.lookup path with
  | some entry => .ok entry
  | none => if tree.shape.blocked path then .error .notADirectory else .error .notFound

/-- `mkdir -p` of the names below a directory. -/
def createDirs (tree : FileTree κ α) (base : List κ) (here : tree.lookup base = some .dir) :
    List κ → Except Errno (FileTree κ α)
  | [] => .ok tree
  | name :: rest =>
    match found : tree.lookup (base ++ [name]) with
    | some .dir => tree.createDirs (base ++ [name]) found rest
    | some (.file _) => .error (if rest.isEmpty then .alreadyExists else .notADirectory)
    | none =>
      (tree.insert (base ++ [name]) .dir (fun _ => rfl) (by rw [List.dropLast_concat]; exact here)).createDirs
        (base ++ [name]) (by rw [lookup_insert, if_pos rfl]) rest

def createDirAll (tree : FileTree κ α) (path : List κ) : Except Errno (FileTree κ α) :=
  tree.createDirs [] tree.root path

/-- A finished temporary file of the same directory takes the path. -/
def rename (tree : FileTree κ α) (path : List κ) (content : α) : Except Errno (FileTree κ α) :=
  if there : tree.shape path = some .dir then .error .isADirectory
  else if parent : tree.shape path.dropLast = some .dir then
    .ok (tree.insert path (.file content) (fun found => (there (shape_dir_iff.mpr found)).elim) (shape_dir_iff.mp parent))
  else .error .notFound

/-- `open` with `O_CREAT | O_EXCL`. -/
def createNew (tree : FileTree κ α) (path : List κ) (content : α) : Except Errno (FileTree κ α) :=
  match absent : tree.lookup path with
  | some _ => .error .alreadyExists
  | none =>
    if parent : tree.shape path.dropLast = some .dir then
      .ok (tree.insert path (.file content) (fun found => by rw [absent] at found; cases found)
        (shape_dir_iff.mp parent))
    else if tree.shape.blocked path then .error .notADirectory
    else .error .notFound

/-- `open` with `O_CREAT | O_TRUNC`. -/
def create (tree : FileTree κ α) (path : List κ) (content : α) : Except Errno (FileTree κ α) :=
  if there : tree.shape path = some .dir then .error .isADirectory
  else if parent : tree.shape path.dropLast = some .dir then
    .ok (tree.insert path (.file content) (fun found => (there (shape_dir_iff.mpr found)).elim) (shape_dir_iff.mp parent))
  else if tree.shape.blocked path then .error .notADirectory
  else .error .notFound

/-- A write through an open file. -/
def modify (tree : FileTree κ α) (path : List κ) (change : α → α) : FileTree κ α :=
  match found : tree.lookup path with
  | some (.file content) =>
    tree.insert path (.file (change content)) (fun dir => by rw [found] at dir; cases dir) (tree.lookup_parent found)
  | some .dir | none => tree

/-- `rename` of a file. -/
def move (tree : FileTree κ α) (source target : List κ) : Except Errno (FileTree κ α) :=
  match found : tree.lookup source with
  | some (.file content) => (tree.eraseFile source content found).rename target content
  | some .dir => .error .isADirectory
  | none => .error .notFound

def removeFile (tree : FileTree κ α) (path : List κ) : Except Errno (FileTree κ α) :=
  match found : tree.lookup path with
  | some (.file content) => .ok (tree.eraseFile path content found)
  | some .dir => .error .isADirectory
  | none => if tree.shape.blocked path then .error .notADirectory else .error .notFound

/-- The parent directories are created on demand. -/
def write (tree : FileTree κ α) (path : List κ) (content : α) : Except Errno (FileTree κ α) := do
  let tree ← tree.createDirAll path.dropLast
  tree.rename path content

/-- A write by way of another file of the directory, which takes the path. -/
def writeVia (tree : FileTree κ α) (temporary path : List κ) (content : α) : Except Errno (FileTree κ α) := do
  let tree ← tree.createDirAll path.dropLast
  let tree ← tree.create temporary content
  tree.move temporary path

private theorem shape_insert_dir {tree : FileTree κ α} {path : List κ}
    (parent : tree.lookup path.dropLast = some .dir) (other : List κ) :
    (tree.insert path .dir (fun _ => rfl) parent).shape other = if other = path then some .dir else tree.shape other := by
  unfold shape
  rw [lookup_insert]
  split <;> rfl

private theorem createDirs_spec (tree : FileTree κ α) (base names : List κ) (here : tree.lookup base = some .dir) :
    match tree.createDirs base here names with
    | .ok after => tree.shape.blocked (base ++ names) = false ∧
        ∀ path, after.lookup path = if path <+: base ++ names then some .dir else tree.lookup path
    | .error _ => tree.shape.blocked (base ++ names) = true := by
  induction names generalizing tree base with
  | nil =>
    have above_dir : ∀ path, path <+: base → tree.lookup path = some .dir := by
      rintro path ⟨rest, rfl⟩
      by_cases last : rest = []
      · rw [last, List.append_nil] at here
        exact here
      · exact tree.lookup_above here last
    simp only [createDirs, List.append_nil]
    refine ⟨?_, ?_⟩
    · rw [Bool.eq_false_iff]
      intro blocked
      obtain ⟨above, earlier, file⟩ := Shape.blocked_iff.mp blocked
      rw [shape_dir_iff.mpr (above_dir above earlier)] at file
      cases file
    · intro path
      split
      · rename_i above
        exact above_dir path above
      · rfl
  | cons name rest ih =>
    rw [List.append_cons]
    generalize outcome : tree.createDirs base here (name :: rest) = result
    unfold createDirs at outcome
    split at outcome
    · rename_i found
      rw [← outcome]
      exact ih tree (base ++ [name]) found
    · rename_i content found
      rw [← outcome]
      exact Shape.blocked_iff.mpr ⟨base ++ [name], List.prefix_append _ _, shape_file_iff.mpr ⟨content, found⟩⟩
    · rename_i absent
      rw [← outcome]
      have parent : tree.lookup (base ++ [name]).dropLast = some .dir := by rw [List.dropLast_concat]; exact here
      have created := ih (tree.insert (base ++ [name]) .dir (fun _ => rfl) parent) (base ++ [name])
        (by rw [lookup_insert, if_pos rfl])
      have same : (tree.insert (base ++ [name]) .dir (fun _ => rfl) parent).shape.blocked (base ++ [name] ++ rest) =
          tree.shape.blocked (base ++ [name] ++ rest) := by
        rw [Bool.eq_iff_iff, Shape.blocked_iff, Shape.blocked_iff]
        refine exists_congr fun above => and_congr_right fun _ => ?_
        rw [shape_insert_dir parent]
        split
        · rename_i new
          rw [new, shape_none_iff.mpr absent]
          simp
        · rfl
      rw [same] at created
      revert created
      cases (tree.insert (base ++ [name]) .dir (fun _ => rfl) parent).createDirs (base ++ [name])
          (by rw [lookup_insert, if_pos rfl]) rest with
      | error errno => exact id
      | ok after =>
        rintro ⟨free, lookups⟩
        refine ⟨free, ?_⟩
        intro path
        rw [lookups path, lookup_insert]
        split
        · rfl
        · rename_i apart
          rw [if_neg]
          rintro rfl
          exact apart (List.prefix_append _ _)

theorem createDirAll_ok {tree after : FileTree κ α} {path : List κ} (created : tree.createDirAll path = .ok after) :
    tree.shape.blocked path = false ∧
      ∀ other, after.lookup other = if other <+: path then some .dir else tree.lookup other := by
  have spec := createDirs_spec tree [] path tree.root
  unfold createDirAll at created
  rw [created] at spec
  exact spec

theorem createDirAll_error {tree : FileTree κ α} {path : List κ} {errno : Errno}
    (failed : tree.createDirAll path = .error errno) : tree.shape.blocked path = true := by
  have spec := createDirs_spec tree [] path tree.root
  unfold createDirAll at failed
  rw [failed] at spec
  exact spec

/-- What a write does to the whole tree. -/
theorem write_ok {tree after : FileTree κ α} {path : List κ} {content : α}
    (written : tree.write path content = .ok after) :
    tree.shape.clear path = true ∧ ∀ other, after.lookup other =
      if other = path then some (.file content) else if other <+: path then some .dir else tree.lookup other := by
  unfold write at written
  cases created : tree.createDirAll path.dropLast with
  | error errno => rw [created] at written; cases written
  | ok middle =>
    obtain ⟨free, lookups⟩ := createDirAll_ok created
    rw [created] at written
    change middle.rename path content = .ok after at written
    unfold rename at written
    split at written
    · cases written
    rename_i vacant
    split at written
    · cases written
      have proper : path ≠ [] := by
        rintro rfl
        exact vacant (shape_dir_iff.mpr middle.root)
      have here : middle.lookup path = tree.lookup path := by
        rw [lookups path, if_neg]
        intro above
        exact (prefix_dropLast.mp ⟨above, proper⟩).2 rfl
      rw [shape_dir_iff, here, ← shape_dir_iff] at vacant
      refine ⟨by simp [Shape.clear, vacant, free], ?_⟩
      intro other
      rw [lookup_insert]
      by_cases here : other = path
      · rw [if_pos here, if_pos here]
      · rw [if_neg here, if_neg here, lookups other]
        by_cases above : other <+: path
        · rw [if_pos above, if_pos (prefix_dropLast.mpr ⟨above, here⟩).1]
        · rw [if_neg above, if_neg]
          exact fun below => above (prefix_dropLast.mp ⟨below, proper⟩).1
    · cases written

theorem write_error {tree : FileTree κ α} {path : List κ} {content : α} {errno : Errno}
    (failed : tree.write path content = .error errno) : tree.shape.clear path = false := by
  unfold write at failed
  cases created : tree.createDirAll path.dropLast with
  | error errno => simp [Shape.clear, createDirAll_error created]
  | ok middle =>
    obtain ⟨free, lookups⟩ := createDirAll_ok created
    rw [created] at failed
    change middle.rename path content = .error errno at failed
    unfold rename at failed
    split at failed
    · rename_i there
      by_cases root : path = []
      · rw [root]
        simp [Shape.clear, shape_dir_iff.mpr tree.root]
      · rw [shape_dir_iff, lookups path, if_neg fun above => (prefix_dropLast.mp ⟨above, root⟩).2 rfl,
          ← shape_dir_iff] at there
        simp [Shape.clear, there]
    · rename_i vacant
      split at failed
      · cases failed
      · rename_i orphan
        exact (orphan (shape_dir_iff.mpr (by rw [lookups, if_pos (List.prefix_refl _)]))).elim

theorem shape_write {tree after : FileTree κ α} {path : List κ} {content : α}
    (written : tree.write path content = .ok after) : after.shape = tree.shape.write path := by
  funext other
  unfold shape Shape.write
  rw [(write_ok written).2 other]
  split
  · rfl
  · split <;> rfl

theorem removeFile_ok {tree after : FileTree κ α} {path : List κ} (removed : tree.removeFile path = .ok after) :
    tree.shape path = some .file ∧
      ∀ other, after.lookup other = if other = path then none else tree.lookup other := by
  unfold removeFile at removed
  split at removed
  · rename_i content found
    cases removed
    exact ⟨shape_file_iff.mpr ⟨content, found⟩, fun other => lookup_eraseFile tree path other content found⟩
  · cases removed
  · split at removed <;> cases removed

theorem shape_removeFile {tree after : FileTree κ α} {path : List κ} (removed : tree.removeFile path = .ok after) :
    after.shape = tree.shape.remove path := by
  funext other
  unfold shape Shape.remove
  rw [(removeFile_ok removed).2 other]
  split <;> rfl

theorem removeFile_error {tree : FileTree κ α} {path : List κ} {errno : Errno}
    (failed : tree.removeFile path = .error errno) :
    if errno = .notFound then tree.lookup path = none ∧ tree.shape.clear path = true
    else tree.shape.clear path = false := by
  unfold removeFile at failed
  split at failed
  · cases failed
  · rename_i found
    cases failed
    rw [if_neg (by simp)]
    simp [Shape.clear, shape_dir_iff.mpr found]
  · rename_i absent
    rw [blocked_of_absent absent] at failed
    split at failed
    · rename_i blocked
      cases failed
      rw [if_neg (by simp)]
      simpa using blocked
    · rename_i free
      cases failed
      rw [if_pos rfl]
      exact ⟨absent, by simpa using free⟩

/-- What the file at the path holds. -/
def read (tree : FileTree κ α) (path : List κ) : Option α := (tree.lookup path).bind Entry.content?

theorem read_of_file {tree : FileTree κ α} {path : List κ} {content : α}
    (found : tree.lookup path = some (.file content)) : tree.read path = some content := by
  unfold read
  rw [found]
  rfl

theorem isSome_read {tree : FileTree κ α} {path : List κ} :
    (tree.read path).isSome = true ↔ tree.shape path = some .file := by
  unfold read shape
  cases tree.lookup path with
  | none => simp
  | some entry => cases entry <;> simp [Entry.content?, Entry.kind]

theorem resolve_clear {tree : FileTree κ α} {path : List κ} (clear : tree.shape.clear path = true) :
    (tree.resolve path = .error .notFound ∧ tree.read path = none) ∨
      ∃ content, tree.resolve path = .ok (.file content) ∧ tree.read path = some content := by
  unfold resolve read
  cases found : tree.lookup path with
  | none =>
    left
    simp only [blocked_of_absent found, clear]
    exact ⟨rfl, rfl⟩
  | some entry =>
    cases entry with
    | file content => exact .inr ⟨content, rfl, rfl⟩
    | dir =>
      simp [Shape.clear, shape_dir_iff.mpr found] at clear

theorem resolve_unclear {tree : FileTree κ α} {path : List κ} (unclear : tree.shape.clear path = false) :
    tree.resolve path = .error .notADirectory ∨ tree.resolve path = .ok .dir := by
  unfold resolve
  cases found : tree.lookup path with
  | none =>
    left
    simp only [blocked_of_absent found, unclear]
    rfl
  | some entry =>
    cases entry with
    | file content =>
      rw [clear_of_file (shape_file_iff.mpr ⟨content, found⟩)] at unclear
      cases unclear
    | dir => exact .inr rfl

theorem write_clear {tree : FileTree κ α} {path : List κ} (clear : tree.shape.clear path = true) (content : α) :
    ∃ after, tree.write path content = .ok after := by
  cases written : tree.write path content with
  | ok after => exact ⟨after, rfl⟩
  | error errno =>
    rw [write_error written] at clear
    cases clear

theorem read_none_iff {tree : FileTree κ α} {path : List κ} : tree.read path = none ↔ tree.shape path ≠ some .file := by
  rw [ne_eq, ← isSome_read, Option.not_isSome_iff_eq_none]

@[simp] theorem read_empty (path : List κ) : (empty : FileTree κ α).read path = none := by
  unfold read
  rw [lookup_empty]
  split <;> rfl

theorem read_write {tree after : FileTree κ α} {path : List κ} {content : α}
    (written : tree.write path content = .ok after) (other : List κ) :
    after.read other = if other = path then some content else tree.read other := by
  obtain ⟨clear, lookups⟩ := write_ok written
  by_cases here : other = path
  · rw [if_pos here]
    exact read_of_file (by rw [lookups, if_pos here])
  · rw [if_neg here]
    by_cases above : other <+: path
    · have vacant : tree.shape other ≠ some .file := by
        intro file
        obtain ⟨-, free⟩ := Bool.and_eq_true_iff.mp clear
        have proper : path ≠ [] := by
          rintro rfl
          exact here (List.prefix_nil.mp above)
        rw [Shape.blocked_iff.mpr ⟨other, (prefix_dropLast.mpr ⟨above, here⟩).1, file⟩] at free
        cases free
      rw [read_none_iff.mpr vacant, read_none_iff, shape_write written, Shape.write, if_neg here, if_pos above]
      simp
    · unfold read
      rw [lookups, if_neg here, if_neg above]

/-- A path is met in the same way as long as it and the files above it are the same. -/
theorem resolve_congr {tree after : FileTree κ α} {path : List κ} (same : after.lookup path = tree.lookup path)
    (files : ∀ above, above <+: path → (after.shape above = some .file ↔ tree.shape above = some .file)) :
    after.resolve path = tree.resolve path := by
  have blocks : after.shape.blocked path = tree.shape.blocked path := by
    rw [Bool.eq_iff_iff, Shape.blocked_iff, Shape.blocked_iff]
    apply exists_congr
    intro above
    exact and_congr_right (files above)
  unfold resolve
  rw [same, blocks]

/-- A write has nothing to do with a path that is neither above nor below its own. -/
theorem resolve_write {tree after : FileTree κ α} {path other : List κ} {content : α}
    (written : tree.write path content = .ok after) (below : ¬ path <+: other) (above : ¬ other <+: path) :
    after.resolve other = tree.resolve other := by
  obtain ⟨clear, lookups⟩ := write_ok written
  apply resolve_congr
  · rw [lookups, if_neg, if_neg above]
    rintro rfl
    exact below (List.prefix_refl _)
  · intro earlier reaches
    have apart : earlier ≠ path := by
      rintro rfl
      exact below reaches
    rw [shape_write written, Shape.write, if_neg apart]
    split
    · rename_i between
      exact ⟨nofun, fun file => (Shape.not_file_above clear between apart file).elim⟩
    · exact Iff.rfl

theorem resolve_createDirAll {tree after : FileTree κ α} {path other : List κ}
    (created : tree.createDirAll path = .ok after) (apart : ¬ other <+: path) : after.resolve other = tree.resolve other := by
  obtain ⟨free, lookups⟩ := createDirAll_ok created
  apply resolve_congr
  · rw [lookups, if_neg apart]
  · intro earlier _
    by_cases above : earlier <+: path
    · have dir : after.shape earlier = some .dir := shape_dir_iff.mpr (by rw [lookups, if_pos above])
      rw [dir]
      refine ⟨nofun, ?_⟩
      intro file
      rw [Shape.blocked_iff.mpr ⟨earlier, above, file⟩] at free
      cases free
    · unfold shape
      rw [lookups, if_neg above]

/-- What is not at a path that leads to it does not matter to a path. -/
theorem resolve_elsewhere {tree after : FileTree κ α} {path other : List κ}
    (lookups : ∀ place, place ≠ path → after.lookup place = tree.lookup place) (apart : ¬ path <+: other) :
    after.resolve other = tree.resolve other := by
  have away : ∀ above, above <+: other → above ≠ path := by
    rintro above reaches rfl
    exact apart reaches
  apply resolve_congr
  · exact lookups other (away other (List.prefix_refl _))
  · intro above reaches
    unfold shape
    rw [lookups above (away above reaches)]

theorem resolve_file {tree : FileTree κ α} {path : List κ} {content : α} (found : tree.lookup path = some (.file content)) :
    tree.resolve path = .ok (.file content) := by
  unfold resolve
  rw [found]

/-- Nothing is in a directory that is there. -/
theorem resolve_absent {tree : FileTree κ α} {path : List κ} (absent : tree.lookup path = none)
    (parent : tree.lookup path.dropLast = some .dir) : tree.resolve path = .error .notFound := by
  have free : tree.shape.blocked path = false := by
    rw [Bool.eq_false_iff]
    intro blocked
    obtain ⟨above, reaches, file⟩ := Shape.blocked_iff.mp blocked
    obtain ⟨content, found⟩ := shape_file_iff.mp file
    have proper : above ≠ path := by
      rintro rfl
      rw [absent] at found
      cases found
    have earlier := (prefix_dropLast.mpr ⟨reaches, proper⟩).1
    by_cases here : path.dropLast = above
    · rw [here, found] at parent
      cases parent
    · rw [tree.lookup_below found earlier here] at parent
      cases parent
  unfold resolve
  rw [absent, free]
  rfl

theorem read_createDirAll {tree after : FileTree κ α} {path : List κ} (created : tree.createDirAll path = .ok after) :
    after.read = tree.read := by
  obtain ⟨free, lookups⟩ := createDirAll_ok created
  funext other
  by_cases above : other <+: path
  · have vacant : tree.shape other ≠ some .file := by
      intro file
      rw [Shape.blocked_iff.mpr ⟨other, above, file⟩] at free
      cases free
    have directory : after.lookup other = some .dir := by rw [lookups, if_pos above]
    rw [read_none_iff.mpr vacant, read_none_iff, shape_dir_iff.mpr directory]
    simp
  · unfold read
    rw [lookups, if_neg above]

theorem createNew_alreadyExists {tree : FileTree κ α} {path : List κ} {content : α}
    (refused : tree.createNew path content = .error .alreadyExists) : tree.lookup path ≠ none := by
  unfold createNew at refused
  split at refused
  · rename_i entry found
    rw [found]
    exact Option.some_ne_none entry
  · split at refused
    · cases refused
    · split at refused <;> cases refused

theorem createNew_present {tree : FileTree κ α} {path : List κ} {entry : Entry α}
    (found : tree.lookup path = some entry) (content : α) : tree.createNew path content = .error .alreadyExists := by
  unfold createNew
  split
  · rfl
  · rename_i absent
    rw [found] at absent
    cases absent

theorem createNew_absent {tree : FileTree κ α} {path : List κ} (absent : tree.lookup path = none)
    (parent : tree.shape path.dropLast = some .dir) (content : α) : ∃ after, tree.createNew path content = .ok after := by
  unfold createNew
  split
  · rename_i found
    rw [absent] at found
    cases found
  · rw [dif_pos parent]
    exact ⟨_, rfl⟩

theorem createNew_ok {tree after : FileTree κ α} {path : List κ} {content : α}
    (created : tree.createNew path content = .ok after) :
    tree.lookup path = none ∧
      ∀ other, after.lookup other = if other = path then some (.file content) else tree.lookup other := by
  unfold createNew at created
  split at created
  · cases created
  · rename_i absent
    split at created
    · cases created
      exact ⟨absent, fun other => lookup_insert ..⟩
    · split at created <;> cases created

theorem create_ok {tree after : FileTree κ α} {path : List κ} {content : α} (created : tree.create path content = .ok after)
    (other : List κ) : after.lookup other = if other = path then some (.file content) else tree.lookup other := by
  unfold create at created
  split at created
  · cases created
  · split at created
    · cases created
      exact lookup_insert ..
    · split at created <;> cases created

theorem create_vacant {tree after : FileTree κ α} {path : List κ} {content : α} (created : tree.create path content = .ok after) :
    tree.shape path ≠ some .dir := by
  intro dir
  unfold create at created
  rw [dif_pos dir] at created
  cases created

theorem create_succeeds {tree : FileTree κ α} {path : List κ} (free : tree.lookup path ≠ some .dir)
    (parent : tree.lookup path.dropLast = some .dir) (content : α) : ∃ after, tree.create path content = .ok after := by
  unfold create
  rw [dif_neg (mt shape_dir_iff.mp free), dif_pos (shape_dir_iff.mpr parent)]
  exact ⟨_, rfl⟩

theorem lookup_modify {tree : FileTree κ α} {path : List κ} {content : α} (found : tree.lookup path = some (.file content))
    (change : α → α) (other : List κ) :
    (tree.modify path change).lookup other = if other = path then some (.file (change content)) else tree.lookup other := by
  unfold modify
  split
  · rename_i content' found'
    rw [found] at found'
    cases found'
    exact lookup_insert ..
  · rename_i dir
    rw [found] at dir
    cases dir
  · rename_i absent
    rw [found] at absent
    cases absent

theorem move_ok {tree after : FileTree κ α} {source target : List κ} {content : α}
    (found : tree.lookup source = some (.file content)) (moved : tree.move source target = .ok after) :
    tree.shape target ≠ some .dir ∧ ∀ other, after.lookup other =
      if other = target then some (.file content) else if other = source then none else tree.lookup other := by
  unfold move at moved
  split at moved
  · rename_i content' found'
    rw [found] at found'
    cases found'
    unfold rename at moved
    split at moved
    · cases moved
    · rename_i there
      split at moved
      · cases moved
        refine ⟨?_, ?_⟩
        · intro dir
          apply there
          rw [shape_dir_iff, lookup_eraseFile, if_neg]
          · exact shape_dir_iff.mp dir
          · rintro rfl
            rw [shape_dir_iff, found] at dir
            cases dir
        · intro other
          rw [lookup_insert, lookup_eraseFile]
      · cases moved
  · cases moved
  · cases moved

theorem move_succeeds {tree : FileTree κ α} {source target : List κ} {content : α}
    (found : tree.lookup source = some (.file content)) (free : tree.lookup target ≠ some .dir)
    (parent : tree.lookup target.dropLast = some .dir) : ∃ after, tree.move source target = .ok after := by
  unfold move
  split
  · rename_i content' found'
    unfold rename
    have stays : ∀ path, tree.lookup path = some .dir → path ≠ source := by
      rintro path dir rfl
      rw [found] at dir
      cases dir
    rw [dif_neg, dif_pos]
    · exact ⟨_, rfl⟩
    · rw [shape_dir_iff, lookup_eraseFile, if_neg (stays _ parent)]
      exact parent
    · rw [shape_dir_iff, lookup_eraseFile]
      split
      · intro impossible; cases impossible
      · exact free
  · rename_i dir
    rw [found] at dir
    cases dir
  · rename_i absent
    rw [found] at absent
    cases absent

section WriteVia

variable {tree after : FileTree κ α} {temporary path : List κ} {content : α}

private theorem lookup_made {middle : FileTree κ α} (created : tree.createDirAll path.dropLast = .ok middle)
    (proper : path ≠ []) (beside : temporary.length = path.length) : middle.lookup temporary = tree.lookup temporary := by
  rw [(createDirAll_ok created).2, if_neg]
  intro above
  have shorter := above.length_le
  rw [List.length_dropLast] at shorter
  have := List.length_pos_iff.mpr proper
  omega

theorem writeVia_ok (proper : path ≠ []) (beside : temporary.length = path.length) (apart : temporary ≠ path)
    (written : tree.writeVia temporary path content = .ok after) :
    tree.shape.clear path = true ∧ tree.shape temporary ≠ some .dir ∧ ∀ other, after.lookup other =
      if other = temporary then none else if other = path then some (.file content)
      else if other <+: path then some .dir else tree.lookup other := by
  unfold writeVia at written
  cases made : tree.createDirAll path.dropLast with
  | error errno => rw [made] at written; cases written
  | ok middle =>
    obtain ⟨free, lookups⟩ := createDirAll_ok made
    rw [made] at written
    cases created : middle.create temporary content with
    | error errno => simp [bind, Except.bind, created] at written
    | ok last =>
      have opened := create_ok created
      have moved : last.move temporary path = .ok after := by simpa [bind, Except.bind, created] using written
      obtain ⟨there, taken⟩ := move_ok (by rw [opened, if_pos rfl]) moved
      have vacant : tree.shape path ≠ some .dir := by
        rw [Ne, shape_dir_iff, opened, if_neg apart.symm, lookup_made made proper rfl, ← shape_dir_iff] at there
        exact there
      refine ⟨by simp [Shape.clear, vacant, free], ?_, ?_⟩
      · intro dir
        apply create_vacant created
        rw [shape_dir_iff, lookup_made made proper beside, ← shape_dir_iff]
        exact dir
      · intro other
        rw [taken]
        by_cases target : other = path
        · rw [if_pos target, if_neg (fun same => apart (same.symm.trans target)), if_pos target]
        · rw [if_neg target, if_neg target]
          by_cases source : other = temporary
          · rw [if_pos source, if_pos source]
          · rw [if_neg source, if_neg source, opened, if_neg source, lookups]
            by_cases above : other <+: path
            · rw [if_pos above, if_pos (prefix_dropLast.mpr ⟨above, target⟩).1]
            · rw [if_neg above, if_neg]
              exact fun below => above (below.trans (List.dropLast_prefix _))

theorem writeVia_succeeds (proper : path ≠ []) (beside : temporary.dropLast = path.dropLast)
    (same : temporary.length = path.length) (clear : tree.shape.clear path = true)
    (free : tree.shape temporary ≠ some .dir) (content : α) : ∃ after, tree.writeVia temporary path content = .ok after := by
  unfold Shape.clear at clear
  obtain ⟨vacant, unblocked⟩ := Bool.and_eq_true_iff.mp clear
  unfold writeVia
  cases made : tree.createDirAll path.dropLast with
  | error errno =>
    rw [createDirAll_error made] at unblocked
    cases unblocked
  | ok middle =>
    have parent : middle.lookup path.dropLast = some .dir := by
      rw [(createDirAll_ok made).2, if_pos (List.prefix_refl _)]
    obtain ⟨last, created⟩ := @create_succeeds _ _ _ middle temporary
      (by rw [lookup_made made proper same]; exact mt shape_dir_iff.mpr free) (by rw [beside]; exact parent) content
    have opened := create_ok created
    have kept : ∀ other, middle.lookup other = some .dir → other ≠ temporary := by
      rintro other dir rfl
      rw [lookup_made made proper same] at dir
      exact free (shape_dir_iff.mpr dir)
    obtain ⟨after, moved⟩ := @move_succeeds _ _ _ last temporary path content (by rw [opened, if_pos rfl])
      (by
        rw [opened]
        split
        · intro impossible; cases impossible
        · rw [lookup_made made proper rfl]
          exact mt shape_dir_iff.mpr (of_decide_eq_true vacant))
      (by rw [opened, if_neg (kept _ parent)]; exact parent)
    refine ⟨after, ?_⟩
    simp [bind, Except.bind, created, moved]

end WriteVia

theorem read_removeFile {tree after : FileTree κ α} {path : List κ} (removed : tree.removeFile path = .ok after)
    (other : List κ) : after.read other = if other = path then none else tree.read other := by
  unfold read
  rw [(removeFile_ok removed).2 other]
  split <;> rfl

end FileTree

end Coral.Library

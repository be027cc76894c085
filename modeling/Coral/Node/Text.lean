import Mathlib.Data.Char
import Mathlib.Data.List.Infix
import Mathlib.Data.List.Lex

/-! Text as the standard library of the source reads it: lines, blanks at the ends,
`Path::components` on Unix, and names joined with `/` into keys. -/

namespace Coral

/-- `char::is_whitespace`. -/
def isWhitespace (char : Char) : Bool :=
  let code := char.toNat
  (9 ≤ code && code ≤ 13) || code = 32 || code = 133 || code = 160 || code = 5760 ||
    (8192 ≤ code && code ≤ 8202) || code = 8232 || code = 8233 || code = 8239 || code = 8287 || code = 12288

/-- `str::trim`. -/
def trim (text : String) : String :=
  String.ofList (((text.toList.dropWhile isWhitespace).reverse.dropWhile isWhitespace).reverse)

/-- `str::lines`: no line keeps its `\n` or `\r\n`, and the last one may have neither. -/
def lines (text : String) : List String :=
  let pieces := text.toList.splitOn '\n'
  let ended := pieces.dropLast.map fun piece => if piece.getLast? = some '\r' then piece.dropLast else piece
  (ended ++ pieces.getLast?.toList.filter (· ≠ [])).map String.ofList

/-- `str::contains`. -/
def containsText (text pattern : String) : Bool := decide (pattern.toList <:+: text.toList)

def startsWithText (text start : String) : Bool := start.toList.isPrefixOf text.toList

def endsWithText (text ending : String) : Bool := ending.toList.isSuffixOf text.toList

/-- `str::strip_prefix`. -/
def stripStart (text start : String) : Option String :=
  if startsWithText text start then some (String.ofList (text.toList.drop start.toList.length)) else none

def dropDotSlash : List Char → List Char
  | '.' :: '/' :: rest => dropDotSlash rest
  | text => text

/-- `str::trim_start_matches("./")`. -/
def trimStartDotSlash (text : String) : String := String.ofList (dropDotSlash text.toList)

def segments (raw : String) : List String := (raw.toList.splitOn '/').map String.ofList

/-- A name that stands for itself in a path. The system may refuse it all the same, for its
length or a NUL in it: what is said of a store without `linux` is said of the names it takes. -/
structure Name where
  text : String
  plain : text ≠ "" ∧ text ≠ "." ∧ text ≠ ".." ∧ '/' ∉ text.toList
deriving DecidableEq

def Name.ofText (text : String) : Option Name :=
  if plain : text ≠ "" ∧ text ≠ "." ∧ text ≠ ".." ∧ '/' ∉ text.toList then some ⟨text, plain⟩ else none

@[simp] theorem Name.ofText_text (name : Name) : Name.ofText name.text = some name := by
  unfold Name.ofText
  rw [dif_pos name.plain]

inductive Component where
  | rootDir
  | curDir
  | parentDir
  | normal (name : Name)
deriving DecidableEq

/-- `Path::components`: only a leading `.` is a component of its own. -/
def components (raw : String) : List Component :=
  let lead := match segments raw with
    | "" :: _ :: _ => [.rootDir]
    | "." :: _ => [.curDir]
    | _ => []
  lead ++ (segments raw).filterMap fun part =>
    if part = ".." then some .parentDir else (Name.ofText part).map .normal

def joinPath (path : List Name) : String := String.intercalate "/" (path.map (·.text))

/-- The names a path consists of, unless it leaves the directory it starts from. -/
def plainParts : List Component → Option (List Name)
  | [] => some []
  | .normal name :: rest => (plainParts rest).map (name :: ·)
  | .curDir :: rest => plainParts rest
  | .parentDir :: _ | .rootDir :: _ => none

/-- The names the system looks up for a key. No key of an agent has a `..` in it. -/
def keyPath (key : String) : List Name := (segments key).filterMap Name.ofText

theorem segments_joinPath {path : List Name} (nonempty : path ≠ []) : segments (joinPath path) = path.map (·.text) := by
  have separate : ∀ piece ∈ (path.map (·.text)).map String.toList, '/' ∉ piece := by
    intro piece member
    rw [List.map_map] at member
    obtain ⟨name, -, rfl⟩ := List.mem_map.mp member
    exact name.plain.2.2.2
  unfold segments joinPath
  rw [String.toList_intercalate, show "/".toList = ['/'] from rfl,
    List.splitOn_intercalate _ separate (by simpa using nonempty)]
  simp

theorem components_joinPath {path : List Name} (nonempty : path ≠ []) :
    components (joinPath path) = path.map .normal := by
  unfold components
  rw [segments_joinPath nonempty]
  obtain ⟨first, rest, rfl⟩ := List.exists_cons_of_ne_nil nonempty
  have lead : (match (first :: rest).map Name.text with
      | "" :: _ :: _ => [Component.rootDir]
      | "." :: _ => [.curDir]
      | _ => []) = [] := by
    split
    · rename_i same
      exact (first.plain.1 (List.cons.inj same).1).elim
    · rename_i same
      exact (first.plain.2.1 (List.cons.inj same).1).elim
    · rfl
  simp only [lead, List.nil_append, List.filterMap_map]
  rw [← List.filterMap_eq_map]
  apply List.filterMap_congr
  intro name _
  simp [name.plain.2.2.1]

/-- A path of plain names is read back as it was written. -/
theorem plainParts_joinPath {path : List Name} (nonempty : path ≠ []) :
    plainParts (components (joinPath path)) = some path := by
  rw [components_joinPath nonempty]
  clear nonempty
  induction path with
  | nil => rfl
  | cons name path ih => simp [plainParts, ih]

theorem segments_append (first second : String) :
    segments (first ++ "/" ++ second) = segments first ++ segments second := by
  unfold segments
  rw [String.toList_append, String.toList_append, List.append_assoc,
    show "/".toList ++ second.toList = '/' :: second.toList from rfl, List.splitOn_append_cons_self, List.map_append]

theorem keyPath_append (first second : String) : keyPath (first ++ "/" ++ second) = keyPath first ++ keyPath second := by
  unfold keyPath
  rw [segments_append, List.filterMap_append]

@[simp] theorem keyPath_joinPath (path : List Name) : keyPath (joinPath path) = path := by
  unfold keyPath
  by_cases empty : path = []
  · subst empty
    decide
  · rw [segments_joinPath empty, List.filterMap_map]
    simp

theorem joinPath_injective : Function.Injective joinPath := by
  intro first second same
  rw [← keyPath_joinPath first, same, keyPath_joinPath]

example : (plainParts (components "./notes//a/./b.md/")).map joinPath = some "notes/a/b.md" := by decide

end Coral

import Coral.Proofs.NotesListing

/-! What stops do to the notes, told from the history. A write puts the file before its entry and
a delete removes the file before its entry, so a stop between leaves a note without an entry, or
an entry without a note. Opening the files again looks for the former only, and mends both. -/

namespace Coral.Proofs
open Coral.Library LawfulStorage

/-- The notes that there are, the names that the sidecar has for them, the last one first, and
how many writes the process will live to see. -/
structure NotesLedger where
  notes : List (List Name) := []
  entries : List String := []
  writes : Nat := 0

namespace NotesLedger

def op (ledger : NotesLedger) (path : List Name) : FsOp → NotesLedger
  | .writeFile _ _ =>
    match ledger.writes with
    | 0 => ledger
    | 1 => ⟨path :: ledger.notes.filter (· ≠ path), ledger.entries, 0⟩
    | left + 2 => ⟨path :: ledger.notes.filter (· ≠ path),
        (joinPath path :: ledger.entries.filter (· != joinPath path)).take TAIL_K, left⟩
  | .deleteFile _ =>
    match ledger.writes with
    | 0 => ledger
    | left + 1 =>
      if joinPath path ∈ ledger.entries then
        match left with
        | 0 => ⟨ledger.notes.filter (· ≠ path), ledger.entries, 0⟩
        | left + 1 => ⟨ledger.notes.filter (· ≠ path), ledger.entries.filter (· != joinPath path), left⟩
      -- A sidecar that does not have the name is not written.
      else ⟨ledger.notes.filter (· ≠ path), ledger.entries, left⟩

/-- A batch with a rejected path changes nothing. -/
def batch (ledger : NotesLedger) (ops : List FsOp) : NotesLedger :=
  if ops.all fun op => (notePath op.path).isSome then
    ops.foldl (fun ledger op => ledger.op ((notePath op.path).getD []) op) ledger
  else ledger

section Reopen

variable (shown : List Name → Prop)

/-- A note that the sidecar does not have. -/
def Lost (ledger : NotesLedger) (path : List Name) : Prop := path ∈ ledger.notes ∧ joinPath path ∉ ledger.entries

/-- A name that the sidecar has for no note. -/
def Stale (ledger : NotesLedger) (name : String) : Prop := name ∈ ledger.entries ∧ name ∉ ledger.notes.map joinPath

/-- Either a note is missed, so that the sidecar gets the names of the listing, and that has them
all; or nothing is amiss. -/
def Heals (ledger : NotesLedger) : Prop :=
  ((∃ path, ledger.Lost path ∧ shown path) ∧ ∀ path ∈ ledger.notes, shown path) ∨
    (∀ path, ¬ ledger.Lost path) ∧ ∀ name, ¬ ledger.Stale name

variable [DecidablePred shown]

instance (ledger : NotesLedger) (path : List Name) : Decidable (ledger.Lost path) := inferInstanceAs (Decidable (_ ∧ _))

instance (ledger : NotesLedger) : Decidable (∃ path, ledger.Lost path ∧ shown path) :=
  decidable_of_iff (∃ path ∈ ledger.notes, joinPath path ∉ ledger.entries ∧ shown path) (by
    unfold Lost
    simp only [and_assoc])

def reopen (ledger : NotesLedger) : NotesLedger :=
  if ∃ path, ledger.Lost path ∧ shown path then
    { ledger with entries := Tailed.greatest ((ledger.notes.filter shown).map joinPath) }
  else ledger

def attempt (ledger : NotesLedger) (attempt : Attempt) : NotesLedger :=
  match attempt.call with
  | .applyOps ops => batch { ledger with writes := attempt.writes } ops
  | .recordEvidence _ _ => ledger
  | .reopen _ => ledger.reopen shown

/-- What a history of calls and stops leaves, where nothing was before. -/
def of (history : List Attempt) : NotesLedger := history.foldl (attempt shown) {}

end Reopen

section Stops

variable {ledger : NotesLedger} {path other : List Name} {name : String} {shown : List Name → Prop}

@[simp] theorem op_dead (dead : ledger.writes = 0) (op : FsOp) : ledger.op path op = ledger := by
  cases op <;> simp [NotesLedger.op, dead]

/-- An entry is left over by a delete alone, one that is cut before it comes to the sidecar. -/
theorem stale_op {op : FsOp} (stale : (ledger.op path op).Stale name) :
    ledger.Stale name ∨ ledger.writes = 1 ∧ name = joinPath path ∧ ∃ raw, op = .deleteFile raw := by
  obtain ⟨notes, entries, writes⟩ := ledger
  obtain ⟨named, absent⟩ := stale
  have others : name ≠ joinPath path → name ∉ (notes.filter (· ≠ path)).map joinPath → name ∉ notes.map joinPath := by
    intro apart absent member
    obtain ⟨other, noted, rfl⟩ := List.mem_map.mp member
    refine absent (List.mem_map_of_mem (List.mem_filter.mpr ⟨noted, ?_⟩))
    exact decide_eq_true fun same => apart (congrArg joinPath same)
  cases op with
  | writeFile raw content =>
    match writes with
    | 0 => exact .inl ⟨named, absent⟩
    | 1 =>
      simp only [NotesLedger.op, List.map_cons, List.mem_cons, not_or] at named absent
      exact .inl ⟨named, others absent.1 absent.2⟩
    | left + 2 =>
      simp only [NotesLedger.op, List.map_cons, List.mem_cons, not_or] at named absent
      obtain same | kept := List.mem_cons.mp (List.mem_of_mem_take named)
      · exact (absent.1 same).elim
      · exact .inl ⟨(List.mem_filter.mp kept).1, others absent.1 absent.2⟩
  | deleteFile raw =>
    match writes with
    | 0 => exact .inl ⟨named, absent⟩
    | left + 1 =>
      by_cases here : joinPath path ∈ entries
      · match left with
        | 0 =>
          simp only [NotesLedger.op, if_pos here] at named absent
          by_cases same : name = joinPath path
          · exact .inr ⟨rfl, same, raw, rfl⟩
          · exact .inl ⟨named, others same absent⟩
        | left + 1 =>
          simp only [NotesLedger.op, if_pos here, List.mem_filter, bne_iff_ne] at named absent
          exact .inl ⟨named.1, others named.2 absent⟩
      · simp only [NotesLedger.op, if_neg here] at named absent
        exact .inl ⟨named, others (fun same => here (same ▸ named)) absent⟩

/-- A note is lost by a write that is cut before it comes to the sidecar, or when its name is pushed out. -/
theorem lost_op {op : FsOp} (lost : (ledger.op path op).Lost other) :
    ledger.Lost other ∨ (∃ raw content, op = .writeFile raw content) ∧
      (ledger.writes = 1 ∧ other = path ∨ TAIL_K ≤ ledger.entries.length) := by
  obtain ⟨notes, entries, writes⟩ := ledger
  obtain ⟨noted, unnamed⟩ := lost
  cases op with
  | writeFile raw content =>
    match writes with
    | 0 => exact .inl ⟨noted, unnamed⟩
    | 1 =>
      obtain rfl | kept := List.mem_cons.mp noted
      · exact .inr ⟨⟨raw, content, rfl⟩, .inl ⟨rfl, rfl⟩⟩
      · exact .inl ⟨(List.mem_filter.mp kept).1, unnamed⟩
    | left + 2 =>
      by_cases room : TAIL_K ≤ entries.length
      · exact .inr ⟨⟨raw, content, rfl⟩, .inr room⟩
      · have fits : (joinPath path :: entries.filter (· != joinPath path)).length ≤ TAIL_K := by
          have fewer := List.length_filter_le (· != joinPath path) entries
          rw [List.length_cons]
          omega
        simp only [NotesLedger.op, List.take_of_length_le fits, List.mem_cons, List.mem_filter, bne_iff_ne, not_or, not_and,
          not_not] at unnamed
        obtain rfl | kept := List.mem_cons.mp noted
        · exact (unnamed.1 rfl).elim
        · exact .inl ⟨(List.mem_filter.mp kept).1, fun named => unnamed.1 (unnamed.2 named)⟩
  | deleteFile raw =>
    match writes with
    | 0 => exact .inl ⟨noted, unnamed⟩
    | left + 1 =>
      by_cases here : joinPath path ∈ entries
      · match left with
        | 0 =>
          simp only [NotesLedger.op, if_pos here, List.mem_filter] at noted unnamed
          exact .inl ⟨noted.1, unnamed⟩
        | left + 1 =>
          simp only [NotesLedger.op, if_pos here, List.mem_filter, decide_eq_true_eq, bne_iff_ne, not_and, not_not] at noted unnamed
          exact .inl ⟨noted.1, fun named => noted.2 (joinPath_injective (unnamed named))⟩
      · simp only [NotesLedger.op, if_neg here, List.mem_filter] at noted unnamed
        exact .inl ⟨noted.1, unnamed⟩

theorem sameNames_iff : SameNames ledger.entries ledger.notes ↔
    (∀ path, ¬ ledger.Lost path) ∧ ∀ name, ¬ ledger.Stale name := by
  constructor
  · intro same
    exact ⟨fun path lost => lost.2 ((same _).mpr (List.mem_map_of_mem lost.1)), fun name stale => stale.2 ((same name).mp stale.1)⟩
  · intro ⟨lost, stale⟩ name
    constructor
    · intro named
      by_contra absent
      exact stale name ⟨named, absent⟩
    · intro member
      obtain ⟨path, noted, rfl⟩ := List.mem_map.mp member
      by_contra unnamed
      exact lost path ⟨noted, unnamed⟩

/-- Lost notes are no harm as long as a listing passes over none. -/
theorem heals_of_not_stale (whole : ∀ name, ¬ ledger.Stale name) (all : ∀ path ∈ ledger.notes, shown path) :
    ledger.Heals shown := by
  by_cases lost : ∃ path, ledger.Lost path
  · obtain ⟨path, lost⟩ := lost
    exact .inl ⟨⟨path, lost, all path lost.1⟩, all⟩
  · exact .inr ⟨not_exists.mp lost, whole⟩

/-- No operation takes more than two writes. -/
theorem op_spends (op : FsOp) : ledger.writes ≤ (ledger.op path op).writes + 2 := by
  obtain ⟨notes, entries, writes⟩ := ledger
  cases op with
  | writeFile raw content =>
    match writes with
    | 0 => simp
    | 1 => simp [NotesLedger.op]
    | left + 2 => simp [NotesLedger.op]
  | deleteFile raw =>
    match writes with
    | 0 => simp
    | 1 => simp only [NotesLedger.op]; omega
    | left + 2 =>
      simp only [NotesLedger.op]
      split
      · exact Nat.le_refl _
      · change left + 2 ≤ left + 1 + 2
        omega

/-- The process may have come to delete the note without living to see two writes for each operation. -/
def MayCut (name : String) (attempt : Attempt) : Prop :=
  ∃ ops raw path, attempt.call = .applyOps ops ∧ .deleteFile raw ∈ ops ∧ notePath raw = some path ∧ name = joinPath path ∧
    attempt.writes < 2 * ops.length

theorem stale_batch {ops : List FsOp} (stale : (ledger.batch ops).Stale name) :
    ledger.Stale name ∨ ∃ raw path, .deleteFile raw ∈ ops ∧ notePath raw = some path ∧ name = joinPath path ∧
      ledger.writes < 2 * ops.length := by
  unfold batch at stale
  split at stale
  · rename_i named
    induction ops generalizing ledger with
    | nil => exact .inl stale
    | cons op ops ih =>
      rw [List.all_cons, Bool.and_eq_true] at named
      obtain ⟨path, there⟩ := Option.isSome_iff_exists.mp named.1
      rw [List.foldl_cons, there, Option.getD_some] at stale
      have spent := @op_spends ledger path op
      rw [List.length_cons]
      rcases ih named.2 stale with before | ⟨raw, other, member, found, same, cut⟩
      · rcases stale_op before with earlier | ⟨last, same, raw, rfl⟩
        · exact .inl earlier
        · exact .inr ⟨raw, path, List.mem_cons_self, there, same, by omega⟩
      · exact .inr ⟨raw, other, List.mem_cons_of_mem _ member, found, same, by omega⟩
  · exact .inl stale

variable [DecidablePred shown]

theorem stale_reopen (stale : (ledger.reopen shown).Stale name) : ledger.Stale name := by
  unfold reopen at stale
  split at stale
  · obtain ⟨named, absent⟩ := stale
    simp only [Tailed.greatest, List.mem_reverse] at named
    have member := (List.mem_insertionSort _).mp (List.mem_of_mem_drop named)
    exact (absent (List.map_subset _ (List.filter_subset_self _) member)).elim
  · exact stale

/-- An entry without a note goes back to a delete that was cut. -/
theorem stale_of {history : List Attempt} (stale : (NotesLedger.of shown history).Stale name) :
    ∃ attempt ∈ history, MayCut name attempt := by
  induction history using List.reverseRecOn with
  | nil => cases stale.1
  | append_singleton history attempt ih =>
    unfold NotesLedger.of at stale ih
    rw [List.foldl_append, List.foldl_cons, List.foldl_nil] at stale
    have earlier : (history.foldl (NotesLedger.attempt shown) {}).Stale name → ∃ attempt' ∈ history ++ [attempt], MayCut name attempt' := by
      intro before
      obtain ⟨cut, member, may⟩ := ih before
      exact ⟨cut, List.mem_append_left _ member, may⟩
    obtain ⟨call, clock, writes⟩ := attempt
    cases call with
    | applyOps ops =>
      rcases stale_batch stale with before | ⟨raw, path, member, found, same, cut⟩
      · exact earlier before
      · exact ⟨_, List.mem_append_right _ List.mem_cons_self, ops, raw, path, rfl, member, found, same, cut⟩
    | recordEvidence record slugSeed => exact earlier stale
    | reopen mandate => exact earlier (stale_reopen stale)

/-- Stops in writes heal, and stops between operations: only a delete that was cut may leave something. -/
theorem heals_of_deletes_whole {history : List Attempt} (whole : ∀ attempt ∈ history, ∀ name, ¬ MayCut name attempt)
    (all : ∀ path ∈ (NotesLedger.of shown history).notes, shown path) : (NotesLedger.of shown history).Heals shown := by
  apply heals_of_not_stale _ all
  intro name stale
  obtain ⟨attempt, member, cut⟩ := stale_of stale
  exact whole attempt member name cut

end Stops

end NotesLedger

section Follows

variable {σ : Type} [AgentStorage σ] [LawfulStorage σ] {fs : AgentFs} {storage later : σ} {store after : Stopping σ}
  {ledger : NotesLedger} {notes : List (List Name)} {path : List Name}

private theorem Existing.noted (existing : Existing fs storage notes) (proper : path ≠ [])
    (record : isNoteRecord (joinPath path) = true) {value : Content} (sets : Sets storage later (noteKey fs path) (some value)) :
    Existing fs later (path :: notes.filter (· ≠ path)) := by
  refine ⟨List.nodup_cons.mpr ⟨by simp, existing.distinct.filter _⟩, ?_⟩
  intro other
  by_cases here : other = path
  · subst here
    simp [sets.at_key, proper, record]
  · rw [sets.apart (noteKey_apart here), ← existing.mem_iff]
    simp [here]

private theorem Existing.erased (existing : Existing fs storage notes) (sets : Sets storage later (noteKey fs path) none) :
    Existing fs later (notes.filter (· ≠ path)) := by
  refine ⟨existing.distinct.filter _, ?_⟩
  intro other
  by_cases here : other = path
  · subst here
    simp [sets.at_key]
  · rw [sets.apart (noteKey_apart here), ← existing.mem_iff]
    simp [here]

private theorem Existing.kept (existing : Existing fs storage notes)
    (same : ∀ rest, viewAt later (fs.key ("notes/" ++ rest)) = viewAt storage (fs.key ("notes/" ++ rest))) :
    Existing fs later notes := by
  refine ⟨existing.distinct, ?_⟩
  intro path
  rw [existing.mem_iff]
  unfold noteKey
  rw [same]

private theorem Existing.tailed (existing : Existing fs storage notes) {value : Option Content}
    (sets : Sets storage later (fs.key NOTES_TAIL_SUFFIX) value) : Existing fs later notes := by
  refine ⟨existing.distinct, ?_⟩
  intro path
  rw [existing.mem_iff]
  apply and_congr_right
  intro _
  apply and_congr_right
  intro record
  rw [sets.apart (noteKey_ne_sidecar record)]

private theorem tracked_set {tail : TailObject} (sets : Sets storage later (fs.key NOTES_TAIL_SUFFIX) (some (.tail tail))) :
    notesDir.tracked fs later = tail.entries.map (·.filename) := by
  change (tailAt later (fs.key NOTES_TAIL_SUFFIX)).entries.map _ = _
  unfold tailAt
  rw [sets.at_key]
  rfl

private theorem tracked_noted (record : isNoteRecord (joinPath path) = true) {value : Option Content}
    (sets : Sets storage later (noteKey fs path) value) : notesDir.tracked fs later = notesDir.tracked fs storage := by
  change (tailAt later (fs.key NOTES_TAIL_SUFFIX)).entries.map _ = (tailAt storage (fs.key NOTES_TAIL_SUFFIX)).entries.map _
  unfold tailAt
  rw [sets.apart (noteKey_ne_sidecar record).symm]

omit [LawfulStorage σ] in
private theorem writes_put {key : String} {value : Content} (written : AgentFs.put store key value = .ok after) :
    store.writes = after.writes + 1 := by
  change AgentFs.stored key (store.put key value) = _ at written
  unfold Stopping.put at written
  split at written
  · cases written
  · cases inner : AgentStorage.put store.storage key value with
    | error source =>
      rw [inner] at written
      cases written
    | ok storage =>
      rw [inner] at written
      cases written
      change store.writes = store.writes - 1 + 1
      omega

omit [LawfulStorage σ] in
private theorem writes_delete {key : String} (deleted : AgentFs.stored key (AgentStorage.delete store key) = .ok after) :
    store.writes = after.writes + 1 := by
  change AgentFs.stored key (store.delete key) = _ at deleted
  unfold Stopping.delete at deleted
  split at deleted
  · cases deleted
  · cases inner : AgentStorage.delete store.storage key with
    | error source =>
      rw [inner] at deleted
      cases deleted
    | ok storage =>
      rw [inner] at deleted
      cases deleted
      change store.writes = store.writes - 1 + 1
      omega

/-- The store is as the ledger tells. -/
structure Follows (fs : AgentFs) (store : Stopping σ) (ledger : NotesLedger) : Prop where
  existing : Existing fs store ledger.notes
  entries : notesDir.tracked fs store = ledger.entries

private theorem Follows.write (follows : Follows fs store ledger) (alive : store.writes = ledger.writes) (proper : path ≠ [])
    (record : isNoteRecord (joinPath path) = true) {now : DateTime} {raw content : String} {result : Except FsError Unit}
    (executed : fs.executeOp now (noteKey fs path) (.writeFile raw content) store = (result, after))
    (outlives : result = .ok () ∨ after.writes = 0) :
    Follows fs after (ledger.op path (.writeFile raw content)) ∧
      after.writes = (ledger.op path (.writeFile raw content)).writes := by
  unfold AgentFs.executeOp at executed
  rw [stripStart_noteKey] at executed
  simp only at executed
  split at executed
  · cases executed
    have dead := outlives.resolve_left (by simp)
    rw [NotesLedger.op_dead (alive.symm.trans dead)]
    exact ⟨follows, alive⟩
  · rename_i middle written
    have noted := (put_spec written).2
    have existing := follows.existing.noted proper record noted
    have entries := (tracked_noted record noted).trans follows.entries
    have spent := writes_put written
    cases followed : fs.appendToTail NOTES_TAIL_SUFFIX (joinPath path) now middle with
    | error error =>
      rw [followed] at executed
      cases executed
      have dead := outlives.resolve_left (by simp)
      have last : ledger.writes = 1 := by omega
      simp only [NotesLedger.op, last]
      exact ⟨⟨existing, entries⟩, dead⟩
    | ok final =>
      rw [followed] at executed
      cases executed
      have tailed := appendToTail_writes followed
      have left : ledger.writes = after.writes + 2 := by
        have spent' := writes_put tailed
        omega
      simp only [NotesLedger.op, left]
      refine ⟨⟨existing.tailed (put_spec tailed).2, ?_⟩, trivial⟩
      rw [tracked_set (put_spec tailed).2, filenames_appended]
      change (joinPath path :: (notesDir.tracked fs middle).filter (· != joinPath path)).take TAIL_K = _
      rw [entries]

private theorem Follows.delete (follows : Follows fs store ledger) (alive : store.writes = ledger.writes)
    (record : isNoteRecord (joinPath path) = true) {now : DateTime} {raw : String} {result : Except FsError Unit}
    (executed : fs.executeOp now (noteKey fs path) (.deleteFile raw) store = (result, after))
    (outlives : result = .ok () ∨ after.writes = 0) :
    Follows fs after (ledger.op path (.deleteFile raw)) ∧ after.writes = (ledger.op path (.deleteFile raw)).writes := by
  unfold AgentFs.executeOp at executed
  rw [stripStart_noteKey] at executed
  simp only at executed
  split at executed
  · cases executed
    have dead := outlives.resolve_left (by simp)
    rw [NotesLedger.op_dead (alive.symm.trans dead)]
    exact ⟨follows, alive⟩
  · rename_i middle deleted
    have erased := (delete_spec deleted).1
    have existing := follows.existing.erased erased
    have entries := (tracked_noted record erased).trans follows.entries
    have spent := writes_delete deleted
    cases followed : fs.removeFromTail NOTES_TAIL_SUFFIX (joinPath path) middle with
    | error error =>
      rw [followed] at executed
      cases executed
      have dead := outlives.resolve_left (by simp)
      have last : ledger.writes = 1 := by omega
      simp only [NotesLedger.op, last]
      split <;> exact ⟨⟨existing, entries⟩, dead⟩
    | ok final =>
      rw [followed] at executed
      cases executed
      obtain ⟨-, ⟨absent, rfl⟩ | ⟨named, tailed⟩⟩ := removeFromTail_writes followed
      · have left : ledger.writes = after.writes + 1 := by omega
        have unnamed : joinPath path ∉ ledger.entries := by
          rw [← entries]
          exact absent
        simp only [NotesLedger.op, left, if_neg unnamed]
        exact ⟨⟨existing, entries⟩, trivial⟩
      · have left : ledger.writes = after.writes + 1 + 1 := by
          have spent' := writes_put tailed
          omega
        have there : joinPath path ∈ ledger.entries := by
          rw [← entries]
          exact named
        simp only [NotesLedger.op, left, if_pos there]
        refine ⟨⟨existing.tailed (put_spec tailed).2, ?_⟩, trivial⟩
        rw [tracked_set (put_spec tailed).2, filenames_removed]
        change (notesDir.tracked fs middle).filter (· != joinPath path) = _
        rw [entries]

private theorem Follows.ops (clock : Clock) {ops : List FsOp} {planned : List (String × FsOp)}
    (plan : List.Forall₂ (Planned fs) ops planned) {reading : Nat} {result : Except FsError Unit}
    (follows : Follows fs store ledger) (alive : store.writes = ledger.writes)
    (executed : fs.executeOps clock reading planned store = (result, after))
    (outlives : result = .ok () ∨ after.writes = 0) :
    Follows fs after (ops.foldl (fun ledger op => ledger.op ((notePath op.path).getD []) op) ledger) := by
  induction plan generalizing reading store ledger with
  | nil =>
    cases executed
    exact follows
  | @cons op step ops planned first rest ih =>
    obtain ⟨path, named, rfl⟩ := first
    obtain ⟨proper, record⟩ := isNoteRecord_notePath named
    have one : ∀ {next : Stopping σ} {answer : Except FsError Unit},
        fs.executeOp (clock reading) (noteKey fs path) op store = (answer, next) → answer = .ok () ∨ next.writes = 0 →
          Follows fs next (ledger.op path op) ∧ next.writes = (ledger.op path op).writes := by
      intro next answer ran lives
      cases op with
      | writeFile raw content => exact follows.write alive proper record ran lives
      | deleteFile raw => exact follows.delete alive record ran lives
    rw [List.foldl_cons, named, Option.getD_some]
    unfold AgentFs.executeOps at executed
    split at executed
    · rename_i next ran
      obtain ⟨here, left⟩ := one ran (.inl rfl)
      exact ih here left executed
    · rename_i error next ran
      cases executed
      have dead := outlives.resolve_left (by simp)
      obtain ⟨here, left⟩ := one ran (.inr dead)
      -- The operations after the stop are not carried out.
      have still : ∀ rest : List FsOp,
          rest.foldl (fun ledger op => ledger.op ((notePath op.path).getD []) op) (ledger.op path op) = ledger.op path op := by
        intro rest
        induction rest with
        | nil => rfl
        | cons op rest ih => rw [List.foldl_cons, NotesLedger.op_dead (left.symm.trans dead), ih]
      rw [still]
      exact here

theorem Follows.applyOps (follows : Follows fs store ledger) {clock : Clock} {ops : List FsOp}
    (alive : store.writes = ledger.writes) (outlives : outlived (fs.applyOps clock ops store) = some after) :
    Follows fs after (ledger.batch ops) := by
  unfold NotesLedger.batch
  cases applied : fs.applyOps clock ops store with
  | mk result final =>
    rw [applied] at outlives
    obtain rfl := outlived_eq outlives
    unfold AgentFs.applyOps at applied
    split at applied
    · rename_i planned plan
      have named : ops.all (fun op => (notePath op.path).isSome) = true := by
        rw [List.all_eq_true]
        intro op member
        obtain ⟨step, -, path, named, -⟩ := forall₂_mem_left (planOps_ok plan) member
        rw [named]
        rfl
      rw [if_pos named]
      apply follows.ops clock (planOps_ok plan) alive applied
      cases result with
      | ok value => exact .inl rfl
      | error error =>
        unfold outlived at outlives
        simp only [executeOps_fault applied, Bool.false_eq_true, false_or, Option.ite_none_right_eq_some] at outlives
        exact .inr outlives.1
    · rename_i error plan
      cases applied
      obtain ⟨-, op, member, unnamed⟩ := planOps_error plan
      rw [if_neg]
      · exact follows
      · rw [List.all_eq_true]
        intro named
        have here := named op member
        rw [unnamed] at here
        cases here

/-- Nothing that shows under `notes/` is changed. -/
private theorem Follows.beside (follows : Follows fs store ledger)
    (same : ∀ rest, viewAt after (fs.key ("notes/" ++ rest)) = viewAt store (fs.key ("notes/" ++ rest))) :
    Follows fs after ledger where
  existing := follows.existing.kept same
  entries := by
    rw [← follows.entries]
    change (tailAt after (fs.key ("notes/" ++ "_tail.json"))).entries.map _ =
      (tailAt store (fs.key ("notes/" ++ "_tail.json"))).entries.map _
    unfold tailAt
    rw [same]

private theorem recordEvidence_beside (attached : Attached fs) (now : DateTime) (record : EvidenceRecord) (slugSeed rest : String) :
    viewAt (fs.recordEvidence now record slugSeed storage).2 (fs.key ("notes/" ++ rest)) =
      viewAt storage (fs.key ("notes/" ++ rest)) := by
  have apart : ∀ {path : String} {more : List Name}, keyPath path = evidenceName :: more →
      keyPath (fs.key ("notes/" ++ rest)) ≠ keyPath (fs.key path) := by
    intro path more headed same
    rw [keyPath_key attached, keyPath_key attached path, headed, show "notes/" = "notes" ++ "/" from rfl, keyPath_append] at same
    exact absurd (List.cons.inj (List.append_cancel_left same)).1 (by decide)
  obtain ⟨more, headed⟩ := relpath_evidence slugSeed record.id
  simp only [AgentFs.recordEvidence]
  generalize evidenceRelpath slugSeed record.id = relpath at headed ⊢
  cases wrote : AgentStorage.putIfAbsent storage (fs.key relpath) (.evidence record) with
  | error source => rfl
  | ok result =>
    obtain ⟨outcome, middle⟩ := result
    cases outcome with
    | existed =>
      change viewAt middle _ = _
      rw [viewAt, putIfAbsent_existed storage middle _ _ wrote]
      rfl
    | created =>
      have recorded : Sets storage middle (fs.key relpath) _ := (putIfAbsent_created storage middle _ _ wrote).2.2
      simp only [AgentFs.stored]
      split
      · exact recorded.apart (apart headed)
      · rename_i final followed
        rw [(appendToTail_ok followed).2.apart (apart (show keyPath EVIDENCE_TAIL_SUFFIX = evidenceName :: [tailName] from rfl)),
          recorded.apart (apart headed)]

end Follows

section Reopened

variable {σ : Type} [AgentStorage σ] [LawfulStorage σ] {fs : AgentFs} {storage after : σ} {notes : List (List Name)}

/-- A listing of `notes/` does not pass over the note. -/
abbrev ListsNote (σ : Type) [AgentStorage σ] [LawfulStorage σ] (fs : AgentFs) (path : List Name) : Prop :=
  Shown σ (fs.key "notes/") (noteKey fs path)

instance [PlainListing σ] : PlainListing (Stopping σ) where
  shown store := PlainListing.shown store.storage
  spelled store := PlainListing.spelled store.storage

theorem greatest_perm {names others : List String} (same : names.Perm others) :
    Tailed.greatest names = Tailed.greatest others := by
  have sorted : names.insertionSort (fun first second => first.toList ≤ second.toList) =
      others.insertionSort (fun first second => first.toList ≤ second.toList) := by
    apply List.Perm.eq_of_pairwise _ (pairwise_sorted _) (pairwise_sorted _)
    · exact ((List.perm_insertionSort _ _).trans same).trans (List.perm_insertionSort _ _).symm
    · intro first second _ _ before later
      exact String.toList_inj.mp (le_antisymm before later)
  unfold Tailed.greatest
  rw [sorted]

theorem Formed.nothingElse (formed : Formed fs storage) (existing : Existing fs storage notes) :
    NothingElse fs storage notes := by
  intro key below there
  rcases formed.clean key below there with sidecar | ⟨path, proper, record, same⟩
  · exact .inl sidecar
  · refine .inr ⟨path, (existing.mem_iff path).mpr ⟨proper, record, ?_⟩, same⟩
    unfold viewAt at there ⊢
    rw [← same]
    exact Option.isSome_iff_ne_none.mpr there

/-- The names that a re-opening finds are those of the notes that are listed. -/
theorem names_perm [PlainListing σ] [DecidablePred (ListsNote σ fs)] (formed : Formed fs storage)
    (existing : Existing fs storage notes) (few : notes.length < TAIL_K) {keys : List String}
    (listed : AgentFs.listAll storage (fs.key "notes/") = .ok keys) :
    (notesDir.names fs keys).Perm ((notes.filter (ListsNote σ fs)).map joinPath) := by
  have only := listAll_only (formed.nothingElse existing) listed
  have fits : keys.length < usizeMax := by
    have within : keys ⊆ fs.key NOTES_TAIL_SUFFIX :: notes.map (noteKey fs) := by
      intro key member
      rcases only key member with sidecar | ⟨path, noted, same⟩
      · exact List.mem_cons.mpr (.inl sidecar)
      · exact List.mem_cons_of_mem _ (List.mem_map.mpr ⟨path, noted, same.symm⟩)
    have fewer := (List.subperm_of_subset (nodup_listAll listed) within).length_le
    rw [List.length_cons, List.length_map] at fewer
    have room : TAIL_K + 1 < usizeMax := by decide
    omega
  refine (List.perm_ext_iff_of_nodup (nodup_names (nodup_listAll listed))
    ((existing.distinct.filter _).map joinPath_injective)).mpr ?_
  intro name
  rw [Tailed.names, List.mem_filter, List.mem_filterMap, List.mem_map]
  constructor
  · rintro ⟨⟨key, member, stripped⟩, record⟩
    rcases only key member with rfl | ⟨path, noted, rfl⟩
    · have sidecar : stripStart (fs.key NOTES_TAIL_SUFFIX) (fs.key "notes/") = some "_tail.json" := by
        rw [show NOTES_TAIL_SUFFIX = "notes/" ++ "_tail.json" from rfl, key_append, stripStart_append]
      obtain rfl := Option.some.inj (sidecar.symm.trans stripped)
      exact absurd record (by decide)
    · obtain rfl := Option.some.inj ((stripStart_noteKey fs path).symm.trans stripped)
      exact ⟨path, List.mem_filter.mpr ⟨noted, decide_eq_true ((mem_listAll existing listed fits noted).mp member)⟩, rfl⟩
  · rintro ⟨path, member, rfl⟩
    obtain ⟨noted, shown⟩ := List.mem_filter.mp member
    exact ⟨⟨noteKey fs path, (mem_listAll existing listed fits noted).mpr (of_decide_eq_true shown), stripStart_noteKey fs path⟩,
      ((existing.mem_iff path).mp noted).2.1⟩

/-- The sidecar is left alone exactly when no note that is listed is lost. -/
private theorem current_iff [PlainListing σ] [DecidablePred (ListsNote σ fs)] {store : Stopping σ} {ledger : NotesLedger}
    (follows : Follows fs store ledger) {keys : List String}
    (names : (notesDir.names fs keys).Perm ((ledger.notes.filter (ListsNote σ fs)).map joinPath)) :
    notesDir.Current fs store keys ↔ ¬ ∃ path, ledger.Lost path ∧ ListsNote σ fs path := by
  have covered : notesDir.Current fs store keys ↔ ∀ name ∈ notesDir.names fs keys, name ∈ notesDir.tracked fs store :=
    ⟨fun current => current.elim (fun none name member => by rw [none] at member; cases member) id, .inr⟩
  rw [covered, follows.entries]
  constructor
  · rintro all ⟨path, ⟨noted, unnamed⟩, shown⟩
    exact unnamed (all _ (names.mem_iff.mpr (List.mem_map_of_mem (List.mem_filter.mpr ⟨noted, decide_eq_true shown⟩))))
  · intro found name member
    obtain ⟨path, among, rfl⟩ := List.mem_map.mp (names.mem_iff.mp member)
    obtain ⟨noted, shown⟩ := List.mem_filter.mp among
    by_contra unnamed
    exact found ⟨path, ⟨noted, unnamed⟩, of_decide_eq_true shown⟩

theorem Follows.reopen [PlainListing σ] {raw : String} [DecidablePred (ListsNote σ (.attach raw))] {store after : Stopping σ}
    {ledger : NotesLedger} {mandate : Mandate} {clock : Clock} {opened : AgentFs}
    (follows : Follows (.attach raw) store ledger) (formed : Formed (.attach raw) store) (few : ledger.notes.length < TAIL_K)
    (reopened : AgentFs.newWithStorage (AgentFs.attach raw).storagePrefix mandate clock store = .ok (opened, after)) :
    Follows (.attach raw) after (ledger.reopen (ListsNote σ (.attach raw))) := by
  obtain ⟨first, second, -, -, beside, reconciled, -⟩ := reopened_beside reopened
  have there : Follows (.attach raw) second ledger := follows.beside beside.view
  obtain ⟨keys, listed, outcome⟩ := reconcileTail_ok notesDir reconciled
  have names := names_perm formed follows.existing few (beside.list.symm.trans listed)
  have current := current_iff there names
  unfold NotesLedger.reopen
  rcases outcome with ⟨kept, rfl⟩ | ⟨stale, tail, written, greatest⟩
  · rw [if_neg (current.mp kept)]
    exact there
  · rw [if_pos (not_not.mp (mt current.mpr stale))]
    refine ⟨there.existing.tailed (put_spec written).2, ?_⟩
    rw [tracked_set (put_spec written).2, greatest, greatest_perm names]
    rfl

private theorem Follows.alive {store : Stopping σ} {ledger : NotesLedger} (follows : Follows fs store ledger)
    (attempt : Attempt) : Follows fs (attempt.alive store) { ledger with writes := attempt.writes } :=
  ⟨⟨follows.existing.distinct, follows.existing.mem_iff⟩, follows.entries⟩

theorem Follows.attempt [PlainListing σ] {raw : String} [DecidablePred (ListsNote σ (.attach raw))] {store next : Stopping σ}
    {ledger : NotesLedger} {attempt : Attempt} {openings : List (Opening σ)} (formed : Formed (.attach raw) store)
    (follows : Follows (.attach raw) store ledger) (few : ledger.notes.length < TAIL_K)
    (stepped : (attempts (.attach raw)).step store attempt = some (next, openings)) :
    Follows (.attach raw) next (ledger.attempt (ListsNote σ (.attach raw)) attempt) := by
  have alive := follows.alive attempt
  obtain ⟨call, clock, writes⟩ := attempt
  simp only [attempts] at stepped
  cases call with
  | applyOps ops =>
    obtain ⟨after, outlives, same⟩ := Option.map_eq_some_iff.mp stepped
    cases same
    exact alive.applyOps rfl outlives
  | recordEvidence record slugSeed =>
    obtain ⟨after, outlives, same⟩ := Option.map_eq_some_iff.mp stepped
    cases same
    rw [outlived_eq outlives]
    have beside := alive.beside (recordEvidence_beside (attached_attach raw) (clock 0) record slugSeed)
    exact ⟨beside.existing, beside.entries⟩
  | reopen mandate =>
    simp only at stepped
    split at stepped
    · rename_i opened after reopened
      cases stepped
      have whole : Formed (.attach raw) (Attempt.alive ⟨.reopen mandate, clock, writes⟩ store) := ⟨formed.sidecar, formed.clean⟩
      have same : Follows (.attach raw) (Attempt.alive ⟨.reopen mandate, clock, writes⟩ store) ledger :=
        ⟨alive.existing, alive.entries⟩
      exact same.reopen whole few reopened
    · cases stepped

/-- What a history leaves of the notes, in a store whose listings pass over some. -/
abbrev ledgerOf (σ : Type) [AgentStorage σ] [LawfulStorage σ] (fs : AgentFs) [DecidablePred (ListsNote σ fs)]
    (history : List Attempt) : NotesLedger := .of (ListsNote σ fs) history

/-- Whatever the calls and wherever they are cut, the store is as the ledger of the history tells. -/
theorem follows_run [PlainListing σ] {raw : String} [DecidablePred (ListsNote σ (.attach raw))] {start store : Stopping σ}
    {history : List Attempt} {openings : List (Opening σ)} (blank : Blank (.attach raw) start)
    (ran : (attempts (.attach raw)).run start history = some (store, openings))
    (few : ∀ earlier, earlier <+: history → (ledgerOf σ (.attach raw) earlier).notes.length < TAIL_K) :
    Formed (.attach raw) store ∧ Follows (.attach raw) store (ledgerOf σ (.attach raw) history) := by
  refine (attempts (.attach raw)).history_invariant (fun history store _ =>
    (∀ earlier, earlier <+: history → (ledgerOf σ (.attach raw) earlier).notes.length < TAIL_K) →
      Formed (.attach raw) store ∧ Follows (.attach raw) store (ledgerOf σ (.attach raw) history)) ?_ ?_ ran few
  · intro _
    obtain ⟨name, -, path⟩ := keyPath_sidecar (.attach raw)
    have nothing : ∀ path, viewAt start (noteKey (.attach raw) path) = none := by
      intro path
      apply blank
      rw [keyPath_noteKey]
      exact List.prefix_append _ _
    have existing : Existing (.attach raw) start [] := ⟨List.nodup_nil, fun path => by simp [nothing path]⟩
    have entries : notesDir.tracked (.attach raw) start = [] := by
      change (tailAt start ((AgentFs.attach raw).key NOTES_TAIL_SUFFIX)).entries.map _ = []
      unfold tailAt
      rw [blank _ (path ▸ List.prefix_append _ _)]
      rfl
    exact ⟨blank.formed, existing, entries⟩
  · intro history store _ attempt next more held stepped few
    obtain ⟨formed, follows⟩ := held fun earlier within => few earlier (within.trans (List.prefix_append _ _))
    refine ⟨formed.attempt stepped, ?_⟩
    have extended := follows.attempt formed (few history (List.prefix_append _ _)) stepped
    unfold ledgerOf NotesLedger.of at extended ⊢
    rw [List.foldl_append]
    exact extended

omit [LawfulStorage σ] in
/-- The sidecar is read before it is rebuilt. -/
private theorem reconcileTail_reads {now : DateTime} {keys : List String}
    (reconciled : fs.reconcileTail NOTES_TAIL_SUFFIX "notes/" isNoteRecord now storage = .ok after)
    (listed : AgentFs.listAll storage (fs.key "notes/") = .ok keys) (named : notesDir.names fs keys ≠ []) :
    ∃ found, AgentFs.get storage (fs.key NOTES_TAIL_SUFFIX) = .ok found := by
  unfold AgentFs.reconcileTail at reconciled
  rw [listed] at reconciled
  simp only [bind, Except.bind] at reconciled
  change (if (notesDir.names fs keys).isEmpty = true then _ else _) = _ at reconciled
  rw [if_neg (by simpa using named)] at reconciled
  cases got : AgentFs.get storage (fs.key NOTES_TAIL_SUFFIX) with
  | ok found => exact ⟨found, rfl⟩
  | error error =>
    rw [got] at reconciled
    cases reconciled

private theorem listed_all_iff {shown : List Name → Prop} [DecidablePred shown] {names : List String}
    (same : names.Perm ((notes.filter shown).map joinPath)) : SameNames names notes ↔ ∀ path ∈ notes, shown path := by
  constructor
  · intro every path noted
    obtain ⟨other, among, joined⟩ := List.mem_map.mp (same.mem_iff.mp ((every _).mpr (List.mem_map_of_mem noted)))
    obtain rfl := joinPath_injective joined
    exact of_decide_eq_true (List.mem_filter.mp among).2
  · intro all name
    rw [same.mem_iff, List.filter_eq_self.mpr fun path noted => decide_eq_true (all path noted)]

/-- What a re-opening has to find for the windows to be right, told by the ledger. -/
private theorem healed_iff [PlainListing σ] {raw : String} [DecidablePred (ListsNote σ (.attach raw))] {store : Stopping σ}
    {ledger : NotesLedger} {mandate : Mandate} {clock : Clock} {opened : AgentFs} (formed : Formed (.attach raw) store)
    (follows : Follows (.attach raw) store ledger) (few : ledger.notes.length < TAIL_K)
    (reopened : AgentFs.newWithStorage (AgentFs.attach raw).storagePrefix mandate clock store.storage = .ok (opened, after)) :
    Healed (.attach raw) store.storage ledger.notes ↔ ledger.Heals (ListsNote σ (.attach raw)) ∧
      ∃ found, AgentFs.get store.storage ((AgentFs.attach raw).key NOTES_TAIL_SUFFIX) = .ok found := by
  obtain ⟨first, second, -, -, beside, reconciled, -⟩ := reopened_beside reopened
  obtain ⟨keys, found, -⟩ := reconcileTail_ok notesDir reconciled
  have listed : AgentFs.listAll store ((AgentFs.attach raw).key "notes/") = .ok keys := beside.list.symm.trans found
  have names : (notesDir.names (.attach raw) keys).Perm ((ledger.notes.filter (ListsNote σ (.attach raw))).map joinPath) :=
    names_perm formed follows.existing few listed
  have current : notesDir.Current (.attach raw) store keys ↔ ¬ ∃ path, ledger.Lost path ∧ ListsNote σ (.attach raw) path :=
    current_iff follows names
  have read : (∃ path, ledger.Lost path ∧ ListsNote σ (.attach raw) path) →
      ∃ found, AgentFs.get store.storage ((AgentFs.attach raw).key NOTES_TAIL_SUFFIX) = .ok found := by
    intro lost
    obtain ⟨found, got⟩ := reconcileTail_reads reconciled found fun empty => current.mp (.inl empty) lost
    exact ⟨found, (beside.get "_tail.json").symm.trans got⟩
  have healed : Healed (.attach raw) store.storage ledger.notes ↔
      (notesDir.Current (.attach raw) store keys ∧
        (∃ found, AgentFs.get store.storage ((AgentFs.attach raw).key NOTES_TAIL_SUFFIX) = .ok found) ∧
          SameNames (notesDir.tracked (.attach raw) store) ledger.notes) ∨
        ¬ notesDir.Current (.attach raw) store keys ∧ SameNames (notesDir.names (.attach raw) keys) ledger.notes := by
    constructor
    · exact fun healed => healed keys listed
    · intro here other again
      cases listed.symm.trans again
      exact here
  rw [healed, current, follows.entries, NotesLedger.sameNames_iff, listed_all_iff names, not_not]
  constructor
  · rintro (⟨-, readable, settled⟩ | ⟨lost, all⟩)
    · exact ⟨.inr settled, readable⟩
    · exact ⟨.inl ⟨lost, all⟩, read lost⟩
  · rintro ⟨⟨lost, all⟩ | ⟨whole, clean⟩, readable⟩
    · exact .inr ⟨lost, all⟩
    · exact .inl ⟨fun ⟨path, lost, _⟩ => whole path lost, readable, whole, clean⟩

/-- Over every history of calls and stops, the notes are those of its ledger once the agent's files
are open again, and the windows tell of them alone exactly when what the stops have left heals. -/
theorem recovered_notes_iff [PlainListing σ] {raw : String} [DecidablePred (ListsNote σ (.attach raw))]
    {start store : Stopping σ} {history : List Attempt} {openings : List (Opening σ)} {mandate : Mandate} {clock : Clock}
    {opened : AgentFs} (blank : Blank (.attach raw) start)
    (ran : (attempts (.attach raw)).run start history = some (store, openings))
    (few : ∀ earlier, earlier <+: history → (ledgerOf σ (.attach raw) earlier).notes.length < TAIL_K)
    (reopened : AgentFs.newWithStorage (AgentFs.attach raw).storagePrefix mandate clock store.storage = .ok (opened, after)) :
    Existing (.attach raw) after (ledgerOf σ (.attach raw) history).notes ∧
      ((∀ n, 1 ≤ n → ∃ window, (AgentFs.attach raw).recentNoteFilenames after n = .ok window ∧
          Accounts (ledgerOf σ (.attach raw) history).notes window) ↔
        (ledgerOf σ (.attach raw) history).Heals (ListsNote σ (.attach raw)) ∧
          ∃ found, AgentFs.get store.storage ((AgentFs.attach raw).key NOTES_TAIL_SUFFIX) = .ok found) := by
  obtain ⟨formed, follows⟩ := follows_run blank ran few
  have few' := few history (List.prefix_refl _)
  have here : Formed (.attach raw) store.storage := ⟨formed.sidecar, formed.clean⟩
  have existing : Existing (.attach raw) store.storage (ledgerOf σ (.attach raw) history).notes :=
    ⟨follows.existing.distinct, follows.existing.mem_iff⟩
  refine ⟨existing.reopened reopened, ?_⟩
  rw [reopened_windows_iff here existing.distinct few' reopened, healed_iff formed follows few' reopened]

end Reopened

instance (fs : AgentFs) : DecidablePred (ListsNote MemoryStorage fs) := fun _ => .isTrue trivial

/-- The entry of `c` outlives the stop in its delete, and that of `b` is never written. The note `b`
is missed, and so both are mended. -/
theorem recovered_notes_iff_second_note :
    ∃ (store : Stopping MemoryStorage) (openings : List (Opening MemoryStorage)) (opened : AgentFs) (after : MemoryStorage),
      (attempts (.attach "")).run ⟨⟨∅⟩, 0, []⟩ [⟨.applyOps [.writeFile "notes/a" "", .writeFile "notes/c" ""], fun _ => ⟨0⟩, 4⟩,
        ⟨.applyOps [.deleteFile "notes/c"], fun _ => ⟨1⟩, 1⟩, ⟨.reopen ⟨"read", none, none, none, {}, none, []⟩, fun _ => ⟨2⟩, 9⟩,
        ⟨.applyOps [.writeFile "notes/b" ""], fun _ => ⟨3⟩, 1⟩] = some (store, openings) ∧
      AgentFs.newWithStorage (AgentFs.attach "").storagePrefix ⟨"read", none, none, none, {}, none, []⟩ (fun _ => ⟨4⟩)
        store.storage = .ok (opened, after) ∧
      Existing (.attach "") after [[⟨"b", by decide⟩], [⟨"a", by decide⟩]] ∧
      ∀ n, 1 ≤ n → ∃ window, (AgentFs.attach "").recentNoteFilenames after n = .ok window ∧
        Accounts [[⟨"b", by decide⟩], [⟨"a", by decide⟩]] window := by
  let history : List Attempt := [⟨.applyOps [.writeFile "notes/a" "", .writeFile "notes/c" ""], fun _ => ⟨0⟩, 4⟩,
    ⟨.applyOps [.deleteFile "notes/c"], fun _ => ⟨1⟩, 1⟩, ⟨.reopen ⟨"read", none, none, none, {}, none, []⟩, fun _ => ⟨2⟩, 9⟩,
    ⟨.applyOps [.writeFile "notes/b" ""], fun _ => ⟨3⟩, 1⟩]
  have left : ((attempts (.attach "")).run (⟨⟨∅⟩, 0, []⟩ : Stopping MemoryStorage) history).map (fun result =>
      (AgentFs.newWithStorage "" ⟨"read", none, none, none, {}, none, []⟩ (fun _ => ⟨4⟩) result.1.storage).toOption.isSome) =
        some true := by decide +kernel
  obtain ⟨⟨store, openings⟩, ran, opens⟩ := Option.map_eq_some_iff.mp left
  obtain ⟨⟨opened, after⟩, same⟩ := Option.isSome_iff_exists.mp opens
  have reopened := ok_of_toOption same
  have few : ∀ earlier ∈ history.inits, (ledgerOf MemoryStorage (.attach "") earlier).notes.length < TAIL_K := by decide +kernel
  have told := recovered_notes_iff (fun _ _ => rfl) ran (fun earlier within => few earlier ((List.mem_inits _ _).mpr within)) reopened
  have notes : (ledgerOf MemoryStorage (.attach "") history).notes = [[⟨"b", by decide⟩], [⟨"a", by decide⟩]] := by decide +kernel
  have lost : (ledgerOf MemoryStorage (.attach "") history).Lost [⟨"b", by decide⟩] := by decide +kernel
  rw [notes] at told
  exact ⟨store, openings, opened, after, ran, reopened, told.1,
    told.2.mpr ⟨.inl ⟨⟨_, lost, trivial⟩, fun _ _ => trivial⟩, ⟨_, rfl⟩⟩⟩

/-- The entry of a deleted note outlives the stop, since no note is there to look for. -/
theorem deleted_note_recalled :
    ¬ ∀ (raw : String) (history : List Attempt) (store : Stopping MemoryStorage)
        (openings : List (Opening MemoryStorage)) (notes : List (List Name)) (mandate : Mandate) (clock : Clock)
        (opened : AgentFs) (after : MemoryStorage), (attempts (.attach raw)).run ⟨⟨∅⟩, 0, []⟩ history = some (store, openings) →
      (∀ earlier, earlier <+: history → (ledgerOf MemoryStorage (.attach raw) earlier).notes.length < TAIL_K) →
        AgentFs.newWithStorage (AgentFs.attach raw).storagePrefix mandate clock store.storage = .ok (opened, after) →
          Existing (.attach raw) after notes → ∀ n, 1 ≤ n → ∃ window,
            (AgentFs.attach raw).recentNoteFilenames after n = .ok window ∧ Accounts notes window := by
  intro told
  let history : List Attempt := [⟨.applyOps [.writeFile "notes/a" ""], fun _ => ⟨0⟩, 2⟩,
    ⟨.applyOps [.deleteFile "notes/a"], fun _ => ⟨1⟩, 1⟩]
  have left : ((attempts (.attach "")).run (⟨⟨∅⟩, 0, []⟩ : Stopping MemoryStorage) history).map (fun result =>
      (AgentFs.newWithStorage "" ⟨"read", none, none, none, {}, none, []⟩ (fun _ => ⟨2⟩) result.1.storage).toOption.map
        fun reopened => ((AgentFs.attach "").recentNoteFilenames reopened.2 1).toOption) = some (some (some ⟨["a"], .none⟩)) := by
    decide +kernel
  obtain ⟨⟨store, openings⟩, ran, seen⟩ := Option.map_eq_some_iff.mp left
  obtain ⟨⟨opened, after⟩, same, shown⟩ := Option.map_eq_some_iff.mp seen
  have few : ∀ earlier ∈ history.inits, (ledgerOf MemoryStorage (.attach "") earlier).notes.length < TAIL_K := by decide +kernel
  have whole : ∀ earlier, earlier <+: history → (ledgerOf MemoryStorage (.attach "") earlier).notes.length < TAIL_K :=
    fun earlier within => few earlier ((List.mem_inits _ _).mpr within)
  have follows := (follows_run (fun _ _ => rfl) ran whole).2
  have notes : (ledgerOf MemoryStorage (.attach "") history).notes = [] := by decide +kernel
  have before : Existing (.attach "") store.storage [] := notes ▸ ⟨follows.existing.distinct, follows.existing.mem_iff⟩
  have existing := before.reopened (ok_of_toOption same)
  obtain ⟨window, answered, accounts⟩ := told "" history store openings [] _ _ opened after ran whole (ok_of_toOption same) existing 1 (Nat.le_refl 1)
  rw [ok_of_toOption shown] at answered
  obtain rfl := Except.ok.inj answered
  exact absurd (accounts.named "a" (by decide)) (by decide)

end Coral.Proofs

import Coral.Library.Sorted
import Coral.Proofs.NotesIndex
import Coral.Proofs.Stopping

/-! Re-opening an agent's files. A tail that some file on disk is missing from is rebuilt
from the names, which forgets the order the files were written in. -/

namespace Coral.Proofs
open Coral.Library LawfulStorage

/-- A directory with a tail: `evidence/` or `notes/`. -/
structure Tailed where
  suffix : String
  indexed : String
  isRecord : String → Bool

def evidenceDir : Tailed := ⟨EVIDENCE_TAIL_SUFFIX, "evidence/", isJsonRecord⟩

def notesDir : Tailed := ⟨NOTES_TAIL_SUFFIX, "notes/", isNoteRecord⟩

namespace Tailed

variable (dir : Tailed) (fs : AgentFs)

def names (keys : List String) : List String :=
  (keys.filterMap fun key => stripStart key (fs.key dir.indexed)).filter dir.isRecord

/-- The names that a rebuilt tail has. -/
def greatest (names : List String) : List String :=
  let sorted : List String := names.insertionSort fun first second => first.toList ≤ second.toList
  (sorted.drop (sorted.length - TAIL_K)).reverse

variable {σ : Type} [AgentStorage σ] [LawfulStorage σ]

def tracked (storage : σ) : List String := (tailAt storage (fs.key dir.suffix)).entries.map (·.filename)

def Exists (storage : σ) (name : String) : Prop := (viewAt storage (fs.key (dir.indexed ++ name))).isSome = true

instance (storage : σ) (name : String) : Decidable (dir.Exists fs storage name) :=
  inferInstanceAs (Decidable (_ = true))

/-- The existing files that were written last, the last one first. -/
def recent (store : Stopping σ) : List String :=
  (((dir.names fs store.journal).filter fun name => dir.Exists fs store name).eraseDups).take TAIL_K

/-- The tail is left alone. -/
def Current (storage : σ) (keys : List String) : Prop :=
  dir.names fs keys = [] ∨ ∀ name ∈ dir.names fs keys, name ∈ dir.tracked fs storage

/-- The order of what was tracked and still exists is kept, and so is what was written last. -/
structure Keeps (before after : Stopping σ) : Prop where
  order : ∀ first second, first ≠ second → [first, second].Sublist (dir.tracked fs before) →
    dir.Exists fs before first → dir.Exists fs before second →
      first ∈ dir.tracked fs after → second ∈ dir.tracked fs after → [first, second].Sublist (dir.tracked fs after)
  kept : ∀ name ∈ dir.tracked fs before, dir.Exists fs before name → name ∈ dir.recent fs before →
    name ∈ dir.tracked fs after

/-- Fewer than `TAIL_K` names on disk are greater. -/
def Great (names : List String) (name : String) : Prop :=
  name ∈ names ∧ (names.filter fun other => decide (name.toList < other.toList)).length < TAIL_K

/-- Where the tail is rebuilt, the names happen to be in the order of the tail, and those
that were written last are among the greatest. -/
structure Sorted (before : Stopping σ) (names : List String) : Prop where
  descending : ∀ first second, first ≠ second → [first, second].Sublist (dir.tracked fs before) →
    dir.Exists fs before first → dir.Exists fs before second → Great names first → Great names second →
      second.toList < first.toList
  great : ∀ name ∈ dir.tracked fs before, dir.Exists fs before name → name ∈ dir.recent fs before → Great names name

def Harmless (before : Stopping σ) : Prop :=
  ∀ keys, AgentFs.listAll before (fs.key dir.indexed) = .ok keys →
    dir.Current fs before keys ∨ dir.Sorted fs before (dir.names fs keys)

end Tailed

section Names

variable {dir : Tailed} {fs : AgentFs}

theorem nodup_names {keys : List String} (distinct : keys.Nodup) : (dir.names fs keys).Nodup := by
  refine List.Nodup.filter _ (distinct.filterMap ?_)
  intro first second name here there
  rw [stripStart_eq here, stripStart_eq there]

private theorem asymm_text (first second : String) (less : first.toList < second.toList) :
    ¬ second.toList < first.toList := List.lt_asymm less

private theorem ascending {names : List String} (distinct : names.Nodup) :
    (names.insertionSort fun first second => first.toList ≤ second.toList).Pairwise
      fun first second => first.toList < second.toList := by
  have apart := (List.perm_insertionSort (fun first second : String => first.toList ≤ second.toList) names).nodup_iff.mpr
    distinct
  refine List.Pairwise.imp₂ ?_ (pairwise_sorted names) apart
  intro first second below other
  rcases lt_or_eq_of_le below with less | same
  · exact less
  · exact (other (String.toList_inj.mp same)).elim

theorem mem_greatest {names : List String} (distinct : names.Nodup) {name : String} :
    name ∈ Tailed.greatest names ↔ Tailed.Great names name := by
  have sorted := List.perm_insertionSort (fun first second : String => first.toList ≤ second.toList) names
  unfold Tailed.greatest Tailed.Great
  simp only [List.mem_reverse]
  rw [mem_drop_sorted asymm_text (ascending distinct), List.mem_insertionSort, (sorted.filter _).length_eq]

theorem descending_greatest {names : List String} (distinct : names.Nodup) :
    (Tailed.greatest names).Pairwise fun first second => second.toList < first.toList := by
  unfold Tailed.greatest
  rw [List.pairwise_reverse]
  exact (ascending distinct).sublist (List.drop_sublist _ _)

end Names

section Reconcile

variable {σ : Type} [AgentStorage σ] [LawfulStorage σ] {fs : AgentFs} {storage after : σ}

theorem reconcileTail_ok (dir : Tailed) {now : DateTime}
    (reconciled : fs.reconcileTail dir.suffix dir.indexed dir.isRecord now storage = .ok after) :
    ∃ keys, AgentFs.listAll storage (fs.key dir.indexed) = .ok keys ∧
      ((dir.Current fs storage keys ∧ after = storage) ∨
        ¬ dir.Current fs storage keys ∧ ∃ tail, AgentFs.put storage (fs.key dir.suffix) (.tail tail) = .ok after ∧
          tail.entries.map (·.filename) = Tailed.greatest (dir.names fs keys)) := by
  unfold AgentFs.reconcileTail at reconciled
  cases listed : AgentFs.listAll storage (fs.key dir.indexed) with
  | error error =>
    rw [listed] at reconciled
    cases reconciled
  | ok keys =>
    refine ⟨keys, rfl, ?_⟩
    rw [listed] at reconciled
    simp only [bind, Except.bind] at reconciled
    change (if (dir.names fs keys).isEmpty = true then _ else _) = _ at reconciled
    by_cases empty : dir.names fs keys = []
    · rw [if_pos (by simp [empty])] at reconciled
      cases reconciled
      exact .inl ⟨.inl empty, rfl⟩
    · rw [if_neg (by simpa using empty)] at reconciled
      cases got : AgentFs.get storage (fs.key dir.suffix) with
      | error error =>
        rw [got] at reconciled
        cases reconciled
      | ok found =>
        have same := get_spec got
        rw [got] at reconciled
        simp only at reconciled
        have tail : (found.bind Content.asTail).getD {} = tailAt storage (fs.key dir.suffix) := by
          rw [same]
          rfl
        rw [tail] at reconciled
        have covered : (((dir.names fs keys).insertionSort fun first second => first.toList ≤ second.toList).all
            fun filename => (tailAt storage (fs.key dir.suffix)).entries.any (·.filename == filename)) = true ↔
              ∀ name ∈ dir.names fs keys, name ∈ dir.tracked fs storage := by
          simp [Tailed.tracked, List.all_eq_true, List.any_eq_true]
        split at reconciled
        · rename_i all
          cases reconciled
          exact .inl ⟨.inr (covered.mp all), rfl⟩
        · rename_i missing
          have stale : ¬ dir.Current fs storage keys := by
            intro current
            rcases current with none | all
            · exact empty none
            · exact missing (covered.mpr all)
          refine .inr ⟨stale, _, reconciled, ?_⟩
          rw [List.map_map]
          exact List.map_id _

omit [LawfulStorage σ] in
theorem newWithStorage_ok {raw : String} {mandate : Mandate} {clock : Clock} {opened : AgentFs}
    (reopened : AgentFs.newWithStorage raw mandate clock storage = .ok (opened, after)) :
    opened = .attach raw ∧ ∃ first second,
      (first = storage ∨ AgentFs.put storage (opened.key "mandate.md") (.text mandate.text) = .ok first) ∧
      opened.reconcileTail EVIDENCE_TAIL_SUFFIX "evidence/" isJsonRecord (clock 0) first = .ok second ∧
      opened.reconcileTail NOTES_TAIL_SUFFIX "notes/" isNoteRecord (clock 1) second = .ok after := by
  have rest : ∀ first : σ, (do
      let second ← (AgentFs.attach raw).reconcileTail EVIDENCE_TAIL_SUFFIX "evidence/" isJsonRecord (clock 0) first
      let third ← (AgentFs.attach raw).reconcileTail NOTES_TAIL_SUFFIX "notes/" isNoteRecord (clock 1) second
      return (AgentFs.attach raw, third)) = .ok (opened, after) →
      opened = .attach raw ∧ ∃ second,
        (AgentFs.attach raw).reconcileTail EVIDENCE_TAIL_SUFFIX "evidence/" isJsonRecord (clock 0) first = .ok second ∧
        (AgentFs.attach raw).reconcileTail NOTES_TAIL_SUFFIX "notes/" isNoteRecord (clock 1) second = .ok after := by
    intro first reconciled
    obtain ⟨second, evidence, reconciled⟩ := bind_ok reconciled
    obtain ⟨third, notes, returned⟩ := bind_ok reconciled
    cases returned
    exact ⟨rfl, second, evidence, notes⟩
  unfold AgentFs.newWithStorage at reopened
  obtain ⟨existing, -, reopened⟩ := bind_ok reopened
  simp only at reopened
  split at reopened
  · obtain ⟨first, mandated, reopened⟩ := bind_ok reopened
    obtain ⟨rfl, second, evidence, notes⟩ := rest first reopened
    exact ⟨rfl, first, second, .inr mandated, evidence, notes⟩
  · obtain ⟨first, same, reopened⟩ := bind_ok reopened
    cases same
    obtain ⟨rfl, second, evidence, notes⟩ := rest storage reopened
    exact ⟨rfl, storage, second, .inl rfl, evidence, notes⟩

theorem nodup_listAll {start : String} {keys : List String} (listed : AgentFs.listAll storage start = .ok keys) :
    keys.Nodup := by
  obtain ⟨page, found, same⟩ := bind_ok listed
  cases same
  cases list : AgentStorage.list storage start none usizeMax with
  | error source =>
    rw [list] at found
    cases found
  | ok other =>
    rw [list] at found
    cases found
    exact list_nodup storage start none usizeMax page list

/-- One tail is reconciled in a store that shows what the re-opened one showed of it. -/
theorem reconciled_keeps_iff (dir : Tailed) {before start middle final : Stopping σ} {now : DateTime}
    (listing : AgentFs.listAll start (fs.key dir.indexed) = AgentFs.listAll before (fs.key dir.indexed))
    (tail : dir.tracked fs start = dir.tracked fs before)
    (reconciled : fs.reconcileTail dir.suffix dir.indexed dir.isRecord now start = .ok middle)
    (last : dir.tracked fs final = dir.tracked fs middle) :
    dir.Keeps fs before final ↔ dir.Harmless fs before := by
  obtain ⟨keys, listed, outcome⟩ := reconcileTail_ok dir reconciled
  rw [listing] at listed
  have current : dir.Current fs start keys ↔ dir.Current fs before keys := by
    unfold Tailed.Current
    rw [tail]
  have harmless : dir.Harmless fs before ↔ dir.Current fs before keys ∨ dir.Sorted fs before (dir.names fs keys) := by
    constructor
    · exact fun harmless => harmless keys listed
    · intro fine other again
      rw [listed] at again
      cases again
      exact fine
  rw [harmless]
  rcases outcome with ⟨fine, rfl⟩ | ⟨stale, rebuilt, written, names⟩
  · refine iff_of_true ⟨?_, ?_⟩ (.inl (current.mp fine))
    · intro first second _ ordered _ _ _ _
      rw [last, tail]
      exact ordered
    · intro name tracked _ _
      rw [last, tail]
      exact tracked
  · have distinct : (dir.names fs keys).Nodup := nodup_names (nodup_listAll listed)
    have now_tracked : dir.tracked fs final = Tailed.greatest (dir.names fs keys) := by
      rw [last, ← names]
      unfold Tailed.tracked tailAt
      rw [(put_spec written).2.at_key]
      rfl
    have ordered : ∀ {first second : String}, first ≠ second →
        ([first, second].Sublist (dir.tracked fs final) ↔ first ∈ dir.tracked fs final ∧ second ∈ dir.tracked fs final ∧
          second.toList < first.toList) := by
      intro first second other
      rw [now_tracked]
      exact pair_sublist_sorted (fun _ _ less => asymm_text _ _ less) (descending_greatest distinct) other
    rw [or_iff_right fun fine => stale (current.mpr fine)]
    constructor
    · intro keeps
      refine ⟨?_, ?_⟩
      · intro first second other earlier here there great great'
        have first_kept : first ∈ dir.tracked fs final := by rw [now_tracked, mem_greatest distinct]; exact great
        have second_kept : second ∈ dir.tracked fs final := by rw [now_tracked, mem_greatest distinct]; exact great'
        exact ((ordered other).mp (keeps.order first second other earlier here there first_kept second_kept)).2.2
      · intro name tracked there recent
        rw [← mem_greatest distinct, ← now_tracked]
        exact keeps.kept name tracked there recent
    · intro sorted
      refine ⟨?_, ?_⟩
      · intro first second other earlier here there first_kept second_kept
        refine (ordered other).mpr ⟨first_kept, second_kept, ?_⟩
        rw [now_tracked, mem_greatest distinct] at first_kept second_kept
        exact sorted.descending first second other earlier here there first_kept second_kept
      · intro name tracked there recent
        rw [now_tracked, mem_greatest distinct]
        exact sorted.great name tracked there recent

end Reconcile

/-- What `attach` makes of every prefix. -/
def Attached (fs : AgentFs) : Prop := fs.storagePrefix = "" ∨ ∃ base, fs.storagePrefix = base ++ "/"

theorem attached_attach (raw : String) : Attached (.attach raw) := by
  unfold Attached AgentFs.attach
  split
  · exact .inr ⟨raw, rfl⟩
  · rename_i closed
    by_cases empty : raw = ""
    · exact .inl empty
    · have ending : endsWithText raw "/" = true := by
        by_contra other
        exact closed ⟨empty, Bool.eq_false_iff.mpr other⟩
      obtain ⟨base, whole⟩ := List.isSuffixOf_iff_suffix.mp ending
      refine .inr ⟨String.ofList base, String.toList_inj.mp ?_⟩
      rw [String.toList_append, String.toList_ofList, whole]

/-- A prefix that is empty or ends with a slash is taken as it is. -/
theorem attach_closed {whole : String} (closed : whole = "" ∨ endsWithText whole "/" = true) :
    AgentFs.attach whole = ⟨whole⟩ := by
  unfold AgentFs.attach
  rw [if_neg]
  intro ⟨nonempty, open_⟩
  rcases closed with empty | ending
  · exact nonempty empty
  · rw [ending] at open_
    cases open_

theorem endsWith_slash (base : String) : endsWithText (base ++ "/") "/" = true := by
  refine List.isSuffixOf_iff_suffix.mpr ?_
  rw [String.toList_append]
  exact List.suffix_append _ _

theorem attach_attach (raw : String) : AgentFs.attach (AgentFs.attach raw).storagePrefix = .attach raw := by
  apply attach_closed
  rcases attached_attach raw with empty | ⟨base, whole⟩
  · exact .inl empty
  · rw [whole]
    exact .inr (endsWith_slash base)

section Apart

variable {fs : AgentFs}

theorem keyPath_key (attached : Attached fs) (rest : String) : keyPath (fs.key rest) = keyPath (fs.key "") ++ keyPath rest := by
  unfold AgentFs.key
  rcases attached with empty | ⟨base, whole⟩
  · rw [empty, String.empty_append, String.append_empty, show keyPath "" = [] by decide, List.nil_append]
  · rw [whole, String.append_empty, keyPath_append, show base ++ "/" = base ++ "/" ++ "" by rw [String.append_empty],
      keyPath_append, show keyPath "" = [] by decide, List.append_nil]

theorem keyPath_dir (name : Name) (rest : String) : keyPath (name.text ++ "/" ++ rest) = name :: keyPath rest := by
  rw [keyPath_append, show keyPath name.text = [name] from keyPath_joinPath [name]]
  rfl

private theorem not_below (attached : Attached fs) {first second : Name} (other : first ≠ second) (rest : List Name)
    (more : String) : keyPath (fs.key (joinPath (first :: rest))) ≠ keyPath (fs.key (second.text ++ "/" ++ more)) := by
  intro same
  rw [keyPath_key attached, keyPath_key attached (second.text ++ "/" ++ more), keyPath_joinPath, keyPath_dir] at same
  exact other (List.cons.inj (List.append_cancel_left same)).1

variable {σ : Type} [AgentStorage σ] [LawfulStorage σ] {storage after : σ}

/-- Nothing in that directory of the agent looks different. -/
structure Beside (fs : AgentFs) (dir : Name) (before after : σ) : Prop where
  list : AgentFs.listAll after (fs.key (dir.text ++ "/")) = AgentFs.listAll before (fs.key (dir.text ++ "/"))
  get : ∀ rest, AgentFs.get after (fs.key (dir.text ++ "/" ++ rest)) = AgentFs.get before (fs.key (dir.text ++ "/" ++ rest))
  view : ∀ rest, viewAt after (fs.key (dir.text ++ "/" ++ rest)) = viewAt before (fs.key (dir.text ++ "/" ++ rest))

theorem Beside.refl (dir : Name) (storage : σ) : Beside fs dir storage storage := ⟨rfl, fun _ => rfl, fun _ => rfl⟩

theorem Beside.trans {dir : Name} {middle : σ} (first : Beside fs dir storage middle) (second : Beside fs dir middle after) :
    Beside fs dir storage after where
  list := second.list.trans first.list
  get rest := (second.get rest).trans (first.get rest)
  view rest := (second.view rest).trans (first.view rest)

private theorem listAll_put (attached : Attached fs) {first second : Name} {rest : List Name} (other : first ≠ second)
    {value : Content} (written : AgentFs.put storage (fs.key (joinPath (first :: rest))) value = .ok after) :
    AgentFs.listAll after (fs.key (second.text ++ "/")) = AgentFs.listAll storage (fs.key (second.text ++ "/")) := by
  have below : ∀ text, startsWithText text (fs.key (second.text ++ "/")) = true →
      ∃ more, text = fs.key (second.text ++ "/" ++ more) := by
    intro text starts
    obtain ⟨more, whole⟩ := List.isPrefixOf_iff_prefix.mp starts
    refine ⟨String.ofList more, String.toList_inj.mp ?_⟩
    rw [key_append, String.toList_append, String.toList_ofList, whole]
  unfold AgentFs.listAll
  rw [list_put storage after _ value (raw_ok written)]
  · rw [Bool.eq_false_iff]
    intro starts
    obtain ⟨more, same⟩ := below _ starts
    apply not_below attached other rest more
    rw [same]
  · rw [Bool.eq_false_iff]
    intro starts
    obtain ⟨more, same⟩ := below _ starts
    apply not_below attached other rest more
    rw [← same, keyPath_joinPath]
  · intro above
    rw [keyPath_key attached, keyPath_key attached (second.text ++ "/"), List.prefix_append_right_inj, keyPath_joinPath,
      show second.text ++ "/" = second.text ++ "/" ++ "" by rw [String.append_empty], keyPath_dir] at above
    exact other (List.cons_prefix_cons.mp above).1

/-- A write to one directory of the agent shows in no other. -/
theorem beside_put (attached : Attached fs) (first : Name) (rest : List Name) {second : Name} (other : first ≠ second)
    {value : Content} (written : AgentFs.put storage (fs.key (joinPath (first :: rest))) value = .ok after) :
    Beside fs second storage after where
  list := listAll_put attached other written
  get more := by
    have heads : ∀ {head head' : Name} {tail tail' : List Name}, head ≠ head' →
        ¬ keyPath (fs.key "") ++ head :: tail <+: keyPath (fs.key "") ++ head' :: tail' := by
      intro head head' tail tail' apart above
      rw [List.prefix_append_right_inj] at above
      exact apart (List.cons_prefix_cons.mp above).1
    unfold AgentFs.get
    rw [get_put storage after _ value (raw_ok written)]
    · rw [keyPath_key attached, keyPath_key attached (second.text ++ "/" ++ more), keyPath_joinPath, keyPath_dir]
      exact heads other
    · rw [keyPath_key attached, keyPath_key attached (joinPath _), keyPath_joinPath, keyPath_dir]
      exact heads other.symm
  view more := by
    apply (put_spec written).2.apart
    exact fun same => not_below attached other rest more same.symm

end Apart

section Reopen

variable {raw : String}

def notesName : Name := ⟨"notes", by decide⟩

def evidenceName : Name := ⟨"evidence", by decide⟩

def mandateName : Name := ⟨"mandate.md", by decide⟩

def tailName : Name := ⟨"_tail.json", by decide⟩

/-- Re-opening comes to a store in which neither tail is rebuilt to something else. -/
def harmlessReopen {σ : Type} [AgentStorage σ] [LawfulStorage σ] (fs : AgentFs) (store : Stopping σ) (attempt : Attempt) :
    Prop :=
  match attempt.call with
  | .reopen _ => evidenceDir.Harmless fs (attempt.alive store) ∧ notesDir.Harmless fs (attempt.alive store)
  | .applyOps _ | .recordEvidence _ _ => True

variable {σ : Type} [AgentStorage σ] [LawfulStorage σ]

/-- Each directory is reconciled as it was found, and the other one does not show it. -/
theorem reopened_beside {before after : σ} {mandate : Mandate} {clock : Clock} {opened : AgentFs}
    (reopened : AgentFs.newWithStorage (AgentFs.attach raw).storagePrefix mandate clock before = .ok (opened, after)) :
    ∃ first second : σ, Beside (.attach raw) evidenceName before first ∧
      (AgentFs.attach raw).reconcileTail EVIDENCE_TAIL_SUFFIX "evidence/" isJsonRecord (clock 0) first = .ok second ∧
      Beside (.attach raw) notesName before second ∧
      (AgentFs.attach raw).reconcileTail NOTES_TAIL_SUFFIX "notes/" isNoteRecord (clock 1) second = .ok after ∧
      Beside (.attach raw) evidenceName second after := by
  have attached := attached_attach raw
  obtain ⟨same, first, second, mandated, evidence, notes⟩ := newWithStorage_ok reopened
  rw [attach_attach] at same
  subst same
  have opening : ∀ dir : Name, mandateName ≠ dir → Beside (.attach raw) dir before first := by
    intro dir other
    rcases mandated with rfl | written
    · exact .refl dir _
    · exact beside_put attached mandateName [] other written
  refine ⟨first, second, opening evidenceName (by decide), evidence, ?_, notes, ?_⟩
  · obtain ⟨_, _, outcome⟩ := reconcileTail_ok evidenceDir evidence
    rcases outcome with ⟨-, rfl⟩ | ⟨-, tail, written, -⟩
    · exact opening notesName (by decide)
    · exact (opening notesName (by decide)).trans (beside_put attached evidenceName [tailName] (by decide) written)
  · obtain ⟨_, _, outcome⟩ := reconcileTail_ok notesDir notes
    rcases outcome with ⟨-, rfl⟩ | ⟨-, tail, written, -⟩
    · exact .refl _ _
    · exact beside_put attached notesName [tailName] (by decide) written

theorem reopened_keeps_iff {mandate : Mandate} {clock : Clock} {before after : Stopping σ} {opened : AgentFs}
    (reopened : AgentFs.newWithStorage (AgentFs.attach raw).storagePrefix mandate clock before = .ok (opened, after)) :
    (evidenceDir.Keeps (.attach raw) before after ↔ evidenceDir.Harmless (.attach raw) before) ∧
      (notesDir.Keeps (.attach raw) before after ↔ notesDir.Harmless (.attach raw) before) := by
  obtain ⟨first, second, opening, evidence, beside, notes, ended⟩ := reopened_beside reopened
  have tracked : ∀ {dir : Name} {tailed : Tailed} {start next : Stopping σ}, tailed.suffix = dir.text ++ "/" ++ "_tail.json" →
      Beside (.attach raw) dir start next → tailed.tracked (.attach raw) next = tailed.tracked (.attach raw) start := by
    intro dir tailed start next suffix beside
    unfold Tailed.tracked tailAt
    rw [suffix, beside.view]
  constructor
  · exact reconciled_keeps_iff evidenceDir opening.list (tracked rfl opening) evidence (tracked rfl ended)
  · exact reconciled_keeps_iff notesDir beside.list (tracked rfl beside) notes rfl

/-- Over every history of calls and stops, recency is kept exactly when the re-openings are harmless. -/
theorem reopening_keeps_recency_iff {start final : Stopping σ} {history : List Attempt} {openings : List (Opening σ)}
    (ran : (attempts (.attach raw)).run start history = some (final, openings)) :
    (∀ opening ∈ openings, evidenceDir.Keeps (.attach raw) opening.before opening.after ∧
        notesDir.Keeps (.attach raw) opening.before opening.after) ↔
      (attempts (.attach raw)).Along (harmlessReopen (.attach raw)) start history := by
  apply (attempts (.attach raw)).run_outputs_iff _ ran
  intro store attempt next outputs stepped
  obtain ⟨call, clock, writes⟩ := attempt
  simp only [attempts] at stepped
  cases call with
  | applyOps ops =>
    obtain ⟨_, -, same⟩ := Option.map_eq_some_iff.mp stepped
    cases same
    simp [harmlessReopen]
  | recordEvidence record slugSeed =>
    obtain ⟨_, -, same⟩ := Option.map_eq_some_iff.mp stepped
    cases same
    simp [harmlessReopen]
  | reopen mandate =>
    simp only at stepped
    split at stepped
    · rename_i opened after reopened
      cases stepped
      have kept := reopened_keeps_iff reopened
      simp only [List.mem_singleton, forall_eq, harmlessReopen]
      exact and_congr kept.1 kept.2
    · cases stepped

end Reopen

/-- Both notes are in the tail when the agent's files are opened again. -/
theorem reopening_keeps_recency_iff_two_notes :
    ∃ final openings, (attempts (.attach "")).run (⟨⟨∅⟩, 0, []⟩ : Stopping MemoryStorage)
        [⟨.applyOps [.writeFile "notes/b" "", .writeFile "notes/a" ""], fun _ => ⟨0⟩, 4⟩,
          ⟨.reopen ⟨"read", none, none, none, {}, none, []⟩, fun _ => ⟨1⟩, 1⟩] = some (final, openings) ∧
      openings.length = 1 ∧ ∀ opening ∈ openings, evidenceDir.Keeps (.attach "") opening.before opening.after ∧
        notesDir.Keeps (.attach "") opening.before opening.after := by
  let write : Attempt := ⟨.applyOps [.writeFile "notes/b" "", .writeFile "notes/a" ""], fun _ => ⟨0⟩, 4⟩
  let reopen : Attempt := ⟨.reopen ⟨"read", none, none, none, {}, none, []⟩, fun _ => ⟨1⟩, 1⟩
  have counted : ((attempts (.attach "")).run (⟨⟨∅⟩, 0, []⟩ : Stopping MemoryStorage) [write, reopen]).map
      (·.2.length) = some 1 := by decide +kernel
  have written : ((attempts (.attach "")).step (⟨⟨∅⟩, 0, []⟩ : Stopping MemoryStorage) write).map
      (fun stepped => ((AgentFs.listAll (reopen.alive stepped.1) "evidence/").toOption,
        (AgentFs.listAll (reopen.alive stepped.1) "notes/").toOption,
          notesDir.tracked (.attach "") (reopen.alive stepped.1))) =
        some (some [], some ["notes/_tail.json", "notes/a", "notes/b"], ["a", "b"]) := by decide +kernel
  obtain ⟨⟨final, openings⟩, ran, one⟩ := Option.map_eq_some_iff.mp counted
  refine ⟨final, openings, ran, one, (reopening_keeps_recency_iff ran).mpr ?_⟩
  obtain ⟨⟨middle, outputs⟩, stepped, found⟩ := Option.map_eq_some_iff.mp written
  obtain ⟨evidence, found⟩ := Prod.mk.inj found
  obtain ⟨notes, tracked⟩ := Prod.mk.inj found
  refine ((attempts _).along_cons stepped).mpr ⟨trivial, ⟨?_, ?_⟩, ?_⟩
  · intro keys listed
    change AgentFs.listAll _ "evidence/" = _ at listed
    rw [listed] at evidence
    obtain rfl := Option.some.inj evidence
    exact .inl (.inl rfl)
  · intro keys listed
    change AgentFs.listAll _ "notes/" = _ at listed
    rw [listed] at notes
    obtain rfl := Option.some.inj notes
    refine .inl (.inr ?_)
    rw [tracked]
    decide +kernel
  · split <;> trivial

/-- The stop before its entry leaves the note `c` out of the tail, and the names put the older `b` before `a`. -/
theorem order_of_names_after_stop :
    ¬ ∀ (raw : String) (history : List Attempt) (final : Stopping MemoryStorage)
        (openings : List (Opening MemoryStorage)),
      (attempts (.attach raw)).run ⟨⟨∅⟩, 0, []⟩ history = some (final, openings) →
        ∀ opening ∈ openings, evidenceDir.Keeps (.attach raw) opening.before opening.after ∧
          notesDir.Keeps (.attach raw) opening.before opening.after := by
  intro kept
  let history : List Attempt := [⟨.applyOps [.writeFile "notes/b" "", .writeFile "notes/a" ""], fun _ => ⟨0⟩, 4⟩,
    ⟨.applyOps [.writeFile "notes/c" ""], fun _ => ⟨1⟩, 1⟩,
    ⟨.reopen ⟨"read", none, none, none, {}, none, []⟩, fun _ => ⟨2⟩, 2⟩]
  have rebuilt : ((attempts (.attach "")).run (⟨⟨∅⟩, 0, []⟩ : Stopping MemoryStorage) history).map (fun result =>
      result.2.map fun opening => (notesDir.tracked (.attach "") opening.before, notesDir.tracked (.attach "") opening.after,
        decide (notesDir.Exists (.attach "") opening.before "a" ∧ notesDir.Exists (.attach "") opening.before "b"))) =
      some [(["a", "b"], ["c", "b", "a"], true)] := by decide +kernel
  obtain ⟨⟨final, openings⟩, ran, seen⟩ := Option.map_eq_some_iff.mp rebuilt
  obtain ⟨opening, rfl, tails⟩ := List.map_eq_singleton_iff.mp seen
  obtain ⟨before, tails⟩ := Prod.mk.inj tails
  obtain ⟨after, there⟩ := Prod.mk.inj tails
  obtain ⟨first, second⟩ := of_decide_eq_true there
  have order := (kept "" history final [opening] ran opening List.mem_cons_self).2.order "a" "b" (by decide)
  rw [before, after] at order
  have swapped := order (by decide) first second (by decide) (by decide)
  exact absurd swapped (by decide)

end Coral.Proofs

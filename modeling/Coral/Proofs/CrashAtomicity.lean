import Coral.Node.LocalWrites

/-! What a reader finds while a write is going on, or after it was cut short. A `put` shows
the old value or the new one; a `put_if_absent` writes where the reader looks. -/

namespace Coral.Proofs
open Coral.Library

/-- The two trees differ at the path at most. -/
def ElsewhereSame (path : List Name) (before after : FileTree Name Bytes) : Prop :=
  ∀ other, other ≠ path → after.lookup other = before.lookup other

/-- Where a `put` can be: it works on the temporary file until the file is moved. -/
def PutAt (start : FileTree Name Bytes) (dir : List Name) (name : Name) (tmp : List Name) (value : Bytes) :
    FileTree Name Bytes × WritePhase → Prop
  | (now, .called) => now = start
  | (now, .parentMade) => start.createDirAll dir = .ok now
  | (now, .opened rest) => ∃ made, start.createDirAll dir = .ok made ∧ ElsewhereSame tmp made now ∧
      ∃ written, written ++ rest = value ∧ now.lookup tmp = some (.file written)
  | (now, .synced) => ∃ made, start.createDirAll dir = .ok made ∧ ElsewhereSame tmp made now ∧
      now.lookup tmp = some (.file value)
  | (now, .broken) => ∃ made, start.createDirAll dir = .ok made ∧ ElsewhereSame tmp made now
  | (now, .ended none) => now = start ∨ ∃ made, start.createDirAll dir = .ok made ∧ ElsewhereSame tmp made now
  | (now, .ended (some _)) => ∃ made, start.createDirAll dir = .ok made ∧ made.shape (dir ++ [name]) ≠ some .dir ∧
      ∀ other, other ≠ tmp →
        now.lookup other = if other = dir ++ [name] then some (.file value) else made.lookup other

/-- Some of the value is at the path, where there was nothing. -/
def Partly (start now : FileTree Name Bytes) (path : List Name) (value written : Bytes) : Prop :=
  getBytes start path = .ok none ∧ written <+: value ∧ now.lookup path = some (.file written)

/-- Where a `put_if_absent` can be. -/
def PutIfAbsentAt (start : FileTree Name Bytes) (dir : List Name) (name : Name) (value : Bytes) :
    FileTree Name Bytes × WritePhase → Prop
  | (now, .called) => now = start
  | (now, .parentMade) => start.createDirAll dir = .ok now
  | (now, .opened rest) => ∃ written, written ++ rest = value ∧ Partly start now (dir ++ [name]) value written
  | (now, .synced) | (now, .ended (some .created)) => Partly start now (dir ++ [name]) value value
  | (now, .broken) => ∃ written, Partly start now (dir ++ [name]) value written
  | (now, .ended none) => getBytes now (dir ++ [name]) = getBytes start (dir ++ [name]) ∨
      ∃ written, Partly start now (dir ++ [name]) value written
  | (now, .ended (some .existed)) => getBytes now (dir ++ [name]) = getBytes start (dir ++ [name]) ∧
      getBytes start (dir ++ [name]) ≠ .ok none

section Steps

variable {start now next : FileTree Name Bytes} {dir : List Name} {name : Name} {value : Bytes}

theorem getBytes_congr {path : List Name} (same : next.resolve path = now.resolve path) :
    getBytes next path = getBytes now path := by
  unfold getBytes
  rw [same]

theorem getBytes_file {path : List Name} {bytes : Bytes} (found : now.lookup path = some (.file bytes)) :
    getBytes now path = .ok (some bytes) := by
  unfold getBytes
  rw [FileTree.resolve_file found]

theorem getBytes_absent {path : List Name} (absent : now.lookup path = none)
    (parent : now.lookup path.dropLast = some .dir) : getBytes now path = .ok none := by
  unfold getBytes
  rw [FileTree.resolve_absent absent parent]

private theorem not_above (name : Name) (dir : List Name) : ¬ dir ++ [name] <+: dir := by
  intro above
  have shorter := above.length_le
  rw [List.length_append, List.length_singleton] at shorter
  omega

theorem getBytes_made {made : FileTree Name Bytes} (created : start.createDirAll dir = .ok made) :
    getBytes made (dir ++ [name]) = getBytes start (dir ++ [name]) :=
  getBytes_congr (FileTree.resolve_createDirAll created (not_above name dir))

theorem tmp_apart (name : Name) (dir : List Name) (pid counter : Nat) :
    ¬ dir ++ [tmpName name pid counter] <+: dir ++ [name] := by
  intro above
  rw [List.prefix_append_right_inj] at above
  exact tmpName_ne name pid counter (List.singleton_inj.mp (above.eq_of_length rfl))

theorem getBytes_elsewhere {path other : List Name} (same : ElsewhereSame path now next) (apart : ¬ path <+: other) :
    getBytes next other = getBytes now other := getBytes_congr (FileTree.resolve_elsewhere same apart)

/-- A step of a `put`. -/
theorem putAt_step {pid counter : Nat} {phase phase' : WritePhase} {event : WriteEvent}
    (here : PutAt start dir name (dir ++ [tmpName name pid counter]) value (now, phase))
    (stepped : writeStep (.put pid counter) dir name value now phase event = some (next, phase')) :
    PutAt start dir name (dir ++ [tmpName name pid counter]) value (next, phase') := by
  cases phase with
  | called =>
    change now = start at here
    subst here
    cases event with
    | proceed =>
      simp only [writeStep] at stepped
      split at stepped
      · rename_i made created
        cases stepped
        exact created
      · cases stepped
        exact .inl rfl
    | write count => cases stepped
    | fail =>
      cases stepped
      exact .inl rfl
  | parentMade =>
    cases event with
    | proceed =>
      simp only [writeStep] at stepped
      split at stepped
      · rename_i tree created
        cases stepped
        have lookups := FileTree.create_ok created
        refine ⟨now, here, ?_, [], rfl, ?_⟩
        · intro other apart
          rw [lookups, if_neg]
          exact apart
        · rw [lookups]
          exact if_pos rfl
      · cases stepped
        exact .inr ⟨now, here, fun _ _ => rfl⟩
    | write count => cases stepped
    | fail =>
      cases stepped
      exact .inr ⟨now, here, fun _ _ => rfl⟩
  | opened rest =>
    obtain ⟨made, created, same, written, whole, found⟩ := here
    cases event with
    | proceed =>
      cases rest with
      | nil =>
        cases stepped
        rw [List.append_nil] at whole
        exact ⟨made, created, same, whole ▸ found⟩
      | cons byte rest => cases stepped
    | write count =>
      simp only [writeStep] at stepped
      split at stepped
      · cases stepped
        have lookups := FileTree.lookup_modify found (· ++ rest.take count)
        refine ⟨made, created, ?_, written ++ rest.take count, ?_, ?_⟩
        · intro other apart
          rw [← same other apart]
          exact (lookups other).trans (if_neg apart)
        · rw [List.append_assoc, List.take_append_drop, whole]
        · exact (lookups _).trans (if_pos rfl)
      · cases stepped
    | fail =>
      cases stepped
      exact ⟨made, created, same⟩
  | synced =>
    obtain ⟨made, created, same, found⟩ := here
    cases event with
    | proceed =>
      simp only [writeStep] at stepped
      split at stepped
      · rename_i tree moved
        cases stepped
        obtain ⟨free, lookups⟩ := FileTree.move_ok found moved
        have target : dir ++ [name] ≠ dir ++ [tmpName name pid counter] := by
          intro together
          exact tmp_apart name dir pid counter (together ▸ List.prefix_refl _)
        refine ⟨made, created, ?_, ?_⟩
        · unfold FileTree.shape at free ⊢
          rw [same _ target] at free
          exact free
        intro other apart
        rw [lookups]
        split
        · rfl
        · exact same other apart
      · cases stepped
        exact ⟨made, created, same⟩
    | write count => cases stepped
    | fail =>
      cases stepped
      exact ⟨made, created, same⟩
  | broken =>
    obtain ⟨made, created, same⟩ := here
    cases event with
    | proceed =>
      simp only [writeStep] at stepped
      split at stepped
      · rename_i tree removed
        cases stepped
        refine .inr ⟨made, created, ?_⟩
        intro other apart
        rw [(FileTree.removeFile_ok removed).2, if_neg, same other apart]
        exact apart
      · cases stepped
        exact .inr ⟨made, created, same⟩
    | write count => cases stepped
    | fail =>
      cases stepped
      exact .inr ⟨made, created, same⟩
  | ended outcome => cases event <;> cases stepped

/-- A step of a `put_if_absent`. -/
theorem putIfAbsentAt_step {phase phase' : WritePhase} {event : WriteEvent}
    (here : PutIfAbsentAt start dir name value (now, phase))
    (stepped : writeStep .putIfAbsent dir name value now phase event = some (next, phase')) :
    PutIfAbsentAt start dir name value (next, phase') := by
  cases phase with
  | called =>
    change now = start at here
    subst here
    cases event with
    | proceed =>
      simp only [writeStep] at stepped
      split at stepped
      · rename_i made created
        cases stepped
        exact created
      · cases stepped
        exact .inl rfl
    | write count => cases stepped
    | fail =>
      cases stepped
      exact .inl rfl
  | parentMade =>
    have same : getBytes now (dir ++ [name]) = getBytes start (dir ++ [name]) := getBytes_made here
    cases event with
    | proceed =>
      simp only [writeStep] at stepped
      split at stepped
      · rename_i tree created
        cases stepped
        obtain ⟨absent, lookups⟩ := FileTree.createNew_ok created
        refine ⟨[], rfl, ?_, List.nil_prefix, ?_⟩
        · rw [← same]
          apply getBytes_absent absent
          rw [List.dropLast_concat, (FileTree.createDirAll_ok here).2, if_pos (List.prefix_refl _)]
        · rw [lookups, if_pos rfl]
      · rename_i refused
        cases stepped
        refine ⟨same, ?_⟩
        rw [← same]
        intro missing
        apply FileTree.createNew_alreadyExists refused
        unfold getBytes FileTree.resolve at missing
        cases found : now.lookup (dir ++ [name]) with
        | none => rfl
        | some entry =>
          rw [found] at missing
          cases entry <;> cases missing
      · cases stepped
        exact .inl same
    | write count => cases stepped
    | fail =>
      cases stepped
      exact .inl same
  | opened rest =>
    obtain ⟨written, whole, absent, earlier, found⟩ := here
    cases event with
    | proceed =>
      cases rest with
      | nil =>
        cases stepped
        rw [List.append_nil] at whole
        exact ⟨absent, List.prefix_refl _, whole ▸ found⟩
      | cons byte rest => cases stepped
    | write count =>
      simp only [writeStep] at stepped
      split at stepped
      · cases stepped
        have more : written ++ rest.take count ++ rest.drop count = value := by
          rw [List.append_assoc, List.take_append_drop, whole]
        refine ⟨written ++ rest.take count, more, absent, more ▸ List.prefix_append _ _, ?_⟩
        exact (FileTree.lookup_modify found (· ++ rest.take count) _).trans (if_pos rfl)
      · cases stepped
    | fail =>
      cases stepped
      exact ⟨written, absent, earlier, found⟩
  | synced =>
    cases event with
    | proceed =>
      cases stepped
      exact here
    | write count => cases stepped
    | fail => cases stepped
  | broken =>
    obtain ⟨written, absent, earlier, found⟩ := here
    cases event with
    | proceed =>
      simp only [writeStep] at stepped
      split at stepped
      · rename_i tree removed
        cases stepped
        have lookups := (FileTree.removeFile_ok removed).2
        have parent := now.lookup_parent found
        have apart : (dir ++ [name]).dropLast ≠ dir ++ [name] := by
          rw [List.dropLast_concat]
          intro same
          exact not_above name dir (same ▸ List.prefix_refl _)
        refine .inl ((getBytes_absent ?_ ?_).trans absent.symm)
        · exact (lookups _).trans (if_pos rfl)
        · exact ((lookups _).trans (if_neg apart)).trans parent
      · cases stepped
        exact .inr ⟨written, absent, earlier, found⟩
    | write count => cases stepped
    | fail =>
      cases stepped
      exact .inr ⟨written, absent, earlier, found⟩
  | ended outcome => cases event <;> cases stepped

end Steps

section Runs

variable {start now : FileTree Name Bytes} {dir : List Name} {name : Name} {value : Bytes}

theorem putAt_run {pid counter : Nat} {phase : WritePhase} {events : List WriteEvent} {outputs : List Unit}
    (ran : (writing (.put pid counter) dir name value).run (start, .called) events = some ((now, phase), outputs)) :
    PutAt start dir name (dir ++ [tmpName name pid counter]) value (now, phase) := by
  have initial : PutAt start dir name (dir ++ [tmpName name pid counter]) value (start, .called) := rfl
  apply (writing (.put pid counter) dir name value).run_invariant _ initial _ ran
  intro state event next more here stepped
  obtain ⟨_, moved, same⟩ := Option.map_eq_some_iff.mp stepped
  cases same
  exact putAt_step here moved

theorem putIfAbsentAt_run {phase : WritePhase} {events : List WriteEvent} {outputs : List Unit}
    (ran : (writing .putIfAbsent dir name value).run (start, .called) events = some ((now, phase), outputs)) :
    PutIfAbsentAt start dir name value (now, phase) := by
  have initial : PutIfAbsentAt start dir name value (start, .called) := rfl
  apply (writing .putIfAbsent dir name value).run_invariant _ initial _ ran
  intro state event next more here stepped
  obtain ⟨_, moved, same⟩ := Option.map_eq_some_iff.mp stepped
  cases same
  exact putIfAbsentAt_step here moved

/-- A `put` that is not cut short comes to one write of the tree. -/
theorem put_ended {pid counter : Nat} {outcome : PutOutcome} {events : List WriteEvent} {outputs : List Unit}
    (ran : (writing (.put pid counter) dir name value).run (start, .called) events =
      some ((now, .ended (some outcome)), outputs)) :
    ∃ after, start.write (dir ++ [name]) value = .ok after ∧
      ElsewhereSame (dir ++ [tmpName name pid counter]) after now := by
  obtain ⟨made, created, free, lookups⟩ := putAt_run ran
  have parent : made.shape (dir ++ [name]).dropLast = some .dir := by
    rw [List.dropLast_concat, FileTree.shape_dir_iff, (FileTree.createDirAll_ok created).2, if_pos (List.prefix_refl _)]
  have wrote : start.write (dir ++ [name]) value = made.rename (dir ++ [name]) value := by
    unfold FileTree.write
    rw [List.dropLast_concat, created]
    rfl
  rw [wrote]
  unfold FileTree.rename
  rw [dif_neg free, dif_pos parent]
  refine ⟨_, rfl, ?_⟩
  intro other apart
  rw [lookups other apart, FileTree.lookup_insert]

/-- What a reader finds on the way. -/
theorem putAt_read {pid counter : Nat} {phase : WritePhase}
    (here : PutAt start dir name (dir ++ [tmpName name pid counter]) value (now, phase)) :
    getBytes now (dir ++ [name]) = getBytes start (dir ++ [name]) ∨ getBytes now (dir ++ [name]) = .ok (some value) := by
  have old : ∀ made, start.createDirAll dir = .ok made → ElsewhereSame (dir ++ [tmpName name pid counter]) made now →
      getBytes now (dir ++ [name]) = getBytes start (dir ++ [name]) := by
    intro made created same
    rw [getBytes_elsewhere same (tmp_apart name dir pid counter), getBytes_made created]
  cases phase with
  | called => exact .inl (congrArg (getBytes · _) here)
  | parentMade => exact .inl (getBytes_made here)
  | opened rest =>
    obtain ⟨made, created, same, -⟩ := here
    exact .inl (old made created same)
  | synced =>
    obtain ⟨made, created, same, -⟩ := here
    exact .inl (old made created same)
  | broken =>
    obtain ⟨made, created, same⟩ := here
    exact .inl (old made created same)
  | ended outcome =>
    cases outcome with
    | none =>
      rcases here with same | ⟨made, created, same⟩
      · exact .inl (congrArg (getBytes · _) same)
      · exact .inl (old made created same)
    | some outcome =>
      obtain ⟨made, -, -, lookups⟩ := here
      refine .inr (getBytes_file ?_)
      rw [lookups, if_pos rfl]
      intro same
      exact tmp_apart name dir pid counter (same ▸ List.prefix_refl _)

theorem putIfAbsentAt_read {phase : WritePhase} (here : PutIfAbsentAt start dir name value (now, phase)) :
    getBytes now (dir ++ [name]) = getBytes start (dir ++ [name]) ∨
      ∃ written, Partly start now (dir ++ [name]) value written := by
  cases phase with
  | called => exact .inl (congrArg (getBytes · _) here)
  | parentMade => exact .inl (getBytes_made here)
  | opened rest =>
    obtain ⟨written, -, partly⟩ := here
    exact .inr ⟨written, partly⟩
  | synced => exact .inr ⟨value, here⟩
  | broken => exact .inr here
  | ended outcome =>
    cases outcome with
    | none => exact here
    | some outcome =>
      cases outcome with
      | created => exact .inr ⟨value, here⟩
      | existed => exact .inl here.1

/-- A `put_if_absent` shows the file before it has written to it. -/
theorem opened_empty (value : Bytes) (absent : getBytes start (dir ++ [name]) = .ok none) :
    ∃ now, (writing .putIfAbsent dir name value).run (start, .called) [.proceed, .proceed] =
        some ((now, .opened value), []) ∧ getBytes now (dir ++ [name]) = .ok (some []) := by
  have missing : start.resolve (dir ++ [name]) = .error .notFound := by
    unfold getBytes at absent
    split at absent <;> first | assumption | cases absent
  obtain ⟨made, created⟩ : ∃ made, start.createDirAll dir = .ok made := by
    cases created : start.createDirAll dir with
    | ok made => exact ⟨made, rfl⟩
    | error errno =>
      obtain ⟨above, reaches, file⟩ := Shape.blocked_iff.mp (FileTree.createDirAll_error created)
      have blocked := Shape.blocked_iff.mpr ⟨above, reaches.trans (List.prefix_append dir [name]), file⟩
      unfold FileTree.resolve at missing
      rw [blocked] at missing
      split at missing <;> cases missing
  obtain ⟨-, lookups⟩ := FileTree.createDirAll_ok created
  have free : made.lookup (dir ++ [name]) = none := by
    rw [← FileTree.resolve_createDirAll created (not_above name dir)] at missing
    unfold FileTree.resolve at missing
    split at missing
    · cases missing
    · assumption
  have parent : made.shape (dir ++ [name]).dropLast = some .dir := by
    rw [List.dropLast_concat, FileTree.shape_dir_iff, lookups, if_pos (List.prefix_refl _)]
  obtain ⟨now, opened⟩ := FileTree.createNew_absent free parent []
  refine ⟨now, ?_, getBytes_file ?_⟩
  · simp [Machine.run, writing, writeStep, created, opened]
  · rw [(FileTree.createNew_ok opened).2, if_pos rfl]

/-- Readers see the old value or the new one, and a `put_if_absent` that was cut short can be made again. -/
structure CrashAtomic (call : WriteCall) (dir : List Name) (name : Name) (value : Bytes) (start : FileTree Name Bytes) :
    Prop where
  seen : ∀ events now phase outputs, (writing call dir name value).run (start, .called) events = some ((now, phase), outputs) →
    getBytes now (dir ++ [name]) = getBytes start (dir ++ [name]) ∨ getBytes now (dir ++ [name]) = .ok (some value)
  retried : call = .putIfAbsent →
    getBytes start (dir ++ [name]) = .ok none ∨ getBytes start (dir ++ [name]) = .ok (some value) →
      ∀ events now phase outputs, (writing call dir name value).run (start, .called) events = some ((now, phase), outputs) →
        ∀ again final outcome more, (writing call dir name value).run (now, .called) again =
          some ((final, .ended (some outcome)), more) → getBytes final (dir ++ [name]) = .ok (some value)

theorem Partly.whole {path : List Name} {written : Bytes} (partly : Partly start now path value written)
    (fine : getBytes start path ≠ .ok none ∨ value = []) : getBytes now path = .ok (some value) := by
  obtain ⟨absent, earlier, found⟩ := partly
  have empty := fine.resolve_left (not_not.mpr absent)
  rw [empty, List.prefix_nil] at earlier
  rw [getBytes_file found, earlier, empty]

/-- A write is seen whole or not at all, unless a `put_if_absent` has something to write where nothing is. -/
theorem crash_atomic_iff (call : WriteCall) (dir : List Name) (name : Name) (value : Bytes)
    (start : FileTree Name Bytes) : CrashAtomic call dir name value start ↔
      call ≠ .putIfAbsent ∨ getBytes start (dir ++ [name]) ≠ .ok none ∨ value = [] := by
  cases call with
  | put pid counter =>
    refine iff_of_true ⟨?_, nofun⟩ (.inl nofun)
    intro events now phase outputs ran
    exact putAt_read (putAt_run ran)
  | putIfAbsent =>
    rw [or_iff_right (by simp)]
    constructor
    · intro atomic
      by_contra condition
      obtain ⟨absent, nonempty⟩ := not_or.mp condition
      rw [not_not] at absent
      obtain ⟨now, ran, empty⟩ := opened_empty value absent
      rcases atomic.seen _ now _ _ ran with old | new
      · rw [empty, absent] at old
        cases old
      · rw [empty] at new
        cases new
        exact nonempty rfl
    · intro fine
      have seen : ∀ events now phase outputs,
          (writing .putIfAbsent dir name value).run (start, .called) events = some ((now, phase), outputs) →
            getBytes now (dir ++ [name]) = getBytes start (dir ++ [name]) ∨
              getBytes now (dir ++ [name]) = .ok (some value) := by
        intro events now phase outputs ran
        rcases putIfAbsentAt_read (putIfAbsentAt_run ran) with old | ⟨written, partly⟩
        · exact .inl old
        · exact .inr (partly.whole fine)
      refine ⟨seen, ?_⟩
      intro _ before events now phase outputs ran again final outcome more retried
      have here := putIfAbsentAt_run retried
      cases outcome with
      | created => exact getBytes_file here.2.2
      | existed =>
        obtain ⟨same, present⟩ := here
        rw [same]
        rcases seen events now phase outputs ran with old | new
        · rw [old] at present ⊢
          exact before.resolve_left present
        · exact new

end Runs

/-- The retry takes the empty file of the first attempt for the record. -/
theorem record_left_empty :
    ¬ ∀ (call : WriteCall) (dir : List Name) (name : Name) (value : Bytes) (start : FileTree Name Bytes),
      CrashAtomic call dir name value start := by
  intro atomic
  let dir : List Name := [⟨"evidence", by decide⟩]
  let name : Name := ⟨"a.json", by decide⟩
  let value : Bytes := [123, 125]
  have again : (((writing .putIfAbsent dir name value).run (.empty, .called) [.proceed, .proceed]).bind fun first =>
      ((writing .putIfAbsent dir name value).run (first.1.1, .called) [.proceed, .proceed]).map fun second =>
        (second.1.2, (getBytes second.1.1 (dir ++ [name])).toOption)) =
      some (.ended (some .existed), some (some [])) := by decide +kernel
  obtain ⟨⟨⟨now, phase⟩, outputs⟩, ran, retry⟩ := Option.bind_eq_some_iff.mp again
  obtain ⟨⟨⟨final, phase'⟩, more⟩, retried, found⟩ := Option.map_eq_some_iff.mp retry
  obtain ⟨ended, bytes⟩ := Prod.mk.inj found
  simp only at ended
  subst ended
  have whole := (atomic .putIfAbsent dir name value .empty).retried rfl (.inl rfl) _ now phase outputs ran _ final _ more retried
  rw [whole] at bytes
  exact absurd bytes (by decide)

end Coral.Proofs

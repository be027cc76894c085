import Mathlib.Data.List.Infix

/-! The run a history ends with: its longest suffix in which every item is good and all
items have one key. What the next item does to it. -/

namespace Coral.Library

universe u v

variable {α : Type u} {β : Type v} {good : α → Prop} {key : α → β}

structure Calm (good : α → Prop) (key : α → β) (run : List α) : Prop where
  good : ∀ item ∈ run, good item
  alike : ∀ first ∈ run, ∀ second ∈ run, key first = key second

structure LastRun (good : α → Prop) (key : α → β) (history run : List α) : Prop where
  suffix : run <:+ history
  calm : Calm good key run
  longest : ∀ other, other <:+ history → Calm good key other → other <:+ run

theorem Calm.part {run part : List α} (calm : Calm good key run) (within : part ⊆ run) : Calm good key part :=
  ⟨fun item member => calm.good item (within member),
    fun first here second there => calm.alike first (within here) second (within there)⟩

theorem Calm.nil : Calm good key ([] : List α) :=
  ⟨fun _ member => (List.not_mem_nil member).elim, fun _ member => (List.not_mem_nil member).elim⟩

theorem Calm.single {item : α} (fine : good item) : Calm good key [item] := by
  refine ⟨?_, ?_⟩
  · intro other member
    rw [List.mem_singleton.mp member]
    exact fine
  · intro first here second there
    rw [List.mem_singleton.mp here, List.mem_singleton.mp there]

/-- A calm run goes on with a good item that has the key of its first. -/
theorem Calm.concat {first item : α} {rest : List α} (calm : Calm good key (first :: rest)) (fine : good item)
    (same : key first = key item) : Calm good key (first :: rest ++ [item]) := by
  have keyed : ∀ other ∈ first :: rest ++ [item], key other = key item := by
    intro other member
    rcases List.mem_append.mp member with earlier | last
    · rw [calm.alike other earlier first List.mem_cons_self, same]
    · rw [List.mem_singleton.mp last]
  refine ⟨?_, fun one here two there => (keyed one here).trans (keyed two there).symm⟩
  intro other member
  rcases List.mem_append.mp member with earlier | last
  · exact calm.good other earlier
  · rw [List.mem_singleton.mp last]
    exact fine

namespace LastRun

variable {history run : List α} {item : α}

theorem unique {other : List α} (here : LastRun good key history run) (there : LastRun good key history other) :
    run = other :=
  (there.longest run here.suffix here.calm).eq_of_length_le (here.longest other there.suffix there.calm).length_le

theorem nil : LastRun good key ([] : List α) [] :=
  ⟨List.suffix_refl _, Calm.nil, fun _ within _ => within⟩

/-- After an item that is not good there is no run. -/
theorem broken (bad : ¬ good item) : LastRun good key (history ++ [item]) [] := by
  refine ⟨List.nil_suffix, Calm.nil, ?_⟩
  intro other within calm
  obtain rfl | ⟨earlier, rfl, -⟩ := List.suffix_concat_iff.mp within
  · exact List.nil_suffix
  · exact (bad (calm.good item (List.mem_append_right _ List.mem_cons_self))).elim

theorem extended {first : α} {rest : List α} (last : LastRun good key history (first :: rest)) (fine : good item)
    (same : key first = key item) : LastRun good key (history ++ [item]) (first :: rest ++ [item]) := by
  refine ⟨List.suffix_append_self_iff.mpr last.suffix, last.calm.concat fine same, ?_⟩
  intro other within calm
  obtain rfl | ⟨earlier, rfl, before⟩ := List.suffix_concat_iff.mp within
  · exact List.nil_suffix
  · have part := calm.part (List.subset_append_left earlier [item])
    exact List.suffix_append_self_iff.mpr (last.longest earlier before part)

/-- A good item whose key is not that of the run begins the next run. -/
theorem restarted (last : LastRun good key history run) (fine : good item)
    (changed : ∀ first, run.head? = some first → key first ≠ key item) : LastRun good key (history ++ [item]) [item] := by
  refine ⟨List.suffix_append _ _, Calm.single fine, ?_⟩
  intro other within calm
  obtain rfl | ⟨earlier, rfl, before⟩ := List.suffix_concat_iff.mp within
  · exact List.nil_suffix
  · have ending := last.longest earlier before (calm.part (List.subset_append_left earlier [item]))
    cases earlier with
    | nil => exact List.suffix_refl _
    | cons one rest =>
      -- An item of the other run is in this one too, and has its key.
      have among : one ∈ run := ending.mem List.mem_cons_self
      obtain ⟨first, later, rfl⟩ := List.exists_cons_of_ne_nil (List.ne_nil_of_mem among)
      apply (changed first rfl _).elim
      rw [last.calm.alike first List.mem_cons_self one among]
      exact calm.alike one (List.mem_append_left _ List.mem_cons_self) item (List.mem_append_right _ List.mem_cons_self)

theorem found (good : α → Prop) (key : α → β) (history : List α) : ∃ run, LastRun good key history run := by
  induction history using List.reverseRecOn with
  | nil => exact ⟨[], nil⟩
  | append_singleton history item ih =>
    obtain ⟨run, last⟩ := ih
    by_cases fine : good item
    · by_cases changed : ∀ first, run.head? = some first → key first ≠ key item
      · exact ⟨_, last.restarted fine changed⟩
      · simp only [not_forall, not_not] at changed
        obtain ⟨first, leads, same⟩ := changed
        obtain ⟨rest, rfl⟩ := List.head?_eq_some_iff.mp leads
        exact ⟨_, last.extended fine same⟩
    · exact ⟨[], broken fine⟩

/-- The run begins after every item that is not good. -/
theorem after_broken {before after : List α} (last : LastRun good key (before ++ item :: after) run)
    (bad : ¬ good item) : run <:+ after := by
  have absent : item ∉ run := fun member => bad (last.calm.good item member)
  rcases List.suffix_or_suffix_of_suffix last.suffix (List.suffix_append before (item :: after)) with within | longer
  · rcases List.suffix_cons_iff.mp within with rfl | later
    · exact (absent List.mem_cons_self).elim
    · exact later
  · exact (absent (longer.mem List.mem_cons_self)).elim

/-- The run begins after every change of the key. -/
theorem after_changed {before after : List α} {next : α} (last : LastRun good key (before ++ item :: next :: after) run)
    (changed : key item ≠ key next) : run <:+ next :: after := by
  have apart : item ∈ run → next ∉ run := fun here there => changed (last.calm.alike item here next there)
  rcases List.suffix_or_suffix_of_suffix last.suffix (List.suffix_append before (item :: next :: after))
    with within | longer
  · rcases List.suffix_cons_iff.mp within with rfl | later
    · exact (apart List.mem_cons_self (List.mem_cons_of_mem _ List.mem_cons_self)).elim
    · exact later
  · exact (apart (longer.mem List.mem_cons_self) (longer.mem (List.mem_cons_of_mem _ List.mem_cons_self))).elim

/-- The run of a history that was converted is the converted run. -/
theorem comap {γ : Type v} {convert : γ → α} {before : List γ} (last : LastRun good key (before.map convert) run) :
    ∃ part, LastRun (fun item => good (convert item)) (fun item => key (convert item)) before part ∧
      part.map convert = run := by
  obtain ⟨rest, whole⟩ := last.suffix
  obtain ⟨front, part, rfl, -, rfl⟩ := List.map_eq_append_iff.mp whole.symm
  refine ⟨part, ⟨List.suffix_append _ _, ⟨?_, ?_⟩, ?_⟩, rfl⟩
  · exact fun item member => last.calm.good _ (List.mem_map_of_mem member)
  · exact fun first here second there => last.calm.alike _ (List.mem_map_of_mem here) _ (List.mem_map_of_mem there)
  · intro other within calm
    have mapped : Calm good key (other.map convert) := by
      refine ⟨?_, ?_⟩
      · intro item member
        obtain ⟨original, among, rfl⟩ := List.mem_map.mp member
        exact calm.good original among
      · intro first here second there
        obtain ⟨one, among, rfl⟩ := List.mem_map.mp here
        obtain ⟨two, beside, rfl⟩ := List.mem_map.mp there
        exact calm.alike one among two beside
    have shorter := (last.longest _ (within.map convert) mapped).length_le
    rw [List.length_map, List.length_map] at shorter
    exact List.suffix_of_suffix_length_le within (List.suffix_append front part) shorter

end LastRun

end Coral.Library

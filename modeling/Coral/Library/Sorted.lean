import Mathlib.Data.List.Basic

/-! Lists that are strictly sorted by a relation: which items are among the last ones, and
in which order two of them stand. Lists that are sorted stably by a rank. -/

namespace Coral.Library

universe u

variable {α : Type u} {less : α → α → Prop}

/-- Among the last so many items are those that fewer items come after. -/
theorem mem_drop_sorted [DecidableRel less] (asymm : ∀ first second, less first second → ¬ less second first)
    {items : List α} (sorted : items.Pairwise less) (count : Nat) {item : α} :
    item ∈ items.drop (items.length - count) ↔ item ∈ items ∧ (items.filter fun other => less item other).length < count := by
  induction items with
  | nil => simp
  | cons first rest ih =>
    obtain ⟨before, later⟩ := List.pairwise_cons.mp sorted
    have skip : item ∈ rest → ¬ less item first := fun member => asymm first item (before item member)
    by_cases fits : rest.length < count
    · rw [show (first :: rest).length - count = 0 by rw [List.length_cons]; omega, List.drop_zero]
      refine ⟨fun member => ⟨member, ?_⟩, And.left⟩
      rcases List.mem_cons.mp member with rfl | among
      · rw [List.filter_cons_of_neg (by simpa using fun self => asymm item item self self)]
        exact Nat.lt_of_le_of_lt (List.length_filter_le _ _) fits
      · rw [List.filter_cons_of_neg (by simpa using skip among)]
        exact Nat.lt_of_le_of_lt (List.length_filter_le _ _) fits
    · rw [show (first :: rest).length - count = rest.length - count + 1 by rw [List.length_cons]; omega,
        List.drop_succ_cons, ih later]
      constructor
      · intro ⟨member, few⟩
        refine ⟨List.mem_cons_of_mem _ member, ?_⟩
        rw [List.filter_cons_of_neg (by simpa using skip member)]
        exact few
      · intro ⟨member, few⟩
        rcases List.mem_cons.mp member with rfl | among
        · rw [List.filter_cons_of_neg (by simpa using fun self => asymm item item self self),
            List.filter_eq_self.mpr (by simpa using before)] at few
          exact (fits few).elim
        · rw [List.filter_cons_of_neg (by simpa using skip among)] at few
          exact ⟨among, few⟩

/-- Two items of a list stand in one of the two orders. -/
theorem pair_sublist_or {items : List α} {first second : α} (other : first ≠ second) (here : first ∈ items)
    (there : second ∈ items) : [first, second].Sublist items ∨ [second, first].Sublist items := by
  induction items with
  | nil => cases here
  | cons item rest ih =>
    rcases List.mem_cons.mp here with rfl | early
    · rcases List.mem_cons.mp there with same | late
      · exact (other same.symm).elim
      · exact .inl ((List.singleton_sublist.mpr late).cons_cons _)
    · rcases List.mem_cons.mp there with rfl | late
      · exact .inr ((List.singleton_sublist.mpr early).cons_cons _)
      · exact (ih early late).imp (·.cons _) (·.cons _)

theorem pair_sublist_sorted (asymm : ∀ first second, less first second → ¬ less second first) {items : List α}
    (sorted : items.Pairwise less) {first second : α} (other : first ≠ second) :
    [first, second].Sublist items ↔ first ∈ items ∧ second ∈ items ∧ less first second := by
  constructor
  · intro ordered
    exact ⟨ordered.subset (by simp), ordered.subset (by simp), sorted.forall_sublist ordered⟩
  · intro ⟨here, there, before⟩
    rcases pair_sublist_or other here there with ordered | reversed
    · exact ordered
    · exact (asymm first second before (sorted.forall_sublist reversed)).elim

section Stable

variable (rank : α → Nat)

private theorem rank_trans (first second third : α) :
    decide (rank first ≤ rank second) → decide (rank second ≤ rank third) → decide (rank first ≤ rank third) := by
  simp only [decide_eq_true_eq]
  omega

private theorem rank_total (first second : α) : decide (rank first ≤ rank second) || decide (rank second ≤ rank first) := by
  simp only [Bool.or_eq_true, decide_eq_true_eq]
  omega

theorem pairwise_mergeSort_rank (items : List α) :
    (items.mergeSort fun first second => rank first ≤ rank second).Pairwise fun first second => rank first ≤ rank second :=
  (List.pairwise_mergeSort (rank_trans rank) (rank_total rank) items).imp of_decide_eq_true

/-- Items of one rank keep their order. -/
theorem filter_mergeSort_rank (items : List α) (rank' : Nat) :
    (items.mergeSort fun first second => rank first ≤ rank second).filter (fun item => rank item = rank') =
      items.filter fun item => rank item = rank' := by
  have alike : ∀ item ∈ items.filter fun item => rank item = rank', rank item = rank' :=
    fun item member => of_decide_eq_true (List.mem_filter.mp member).2
  have sorted : (items.filter fun item => rank item = rank').Pairwise fun first second =>
      decide (rank first ≤ rank second) = true := by
    refine List.pairwise_of_forall_mem_list fun first here second there => ?_
    rw [alike first here, alike second there]
    simp
  have kept := (List.sublist_mergeSort (rank_trans rank) (rank_total rank) sorted List.filter_sublist).filter
    fun item => decide (rank item = rank')
  rw [List.filter_filter] at kept
  simp only [Bool.and_self] at kept
  exact (kept.eq_of_length ((List.mergeSort_perm items _).filter _).length_eq.symm).symm

theorem mergeSort_rank_sorted {items : List α} (sorted : items.Pairwise fun first second => rank first ≤ rank second) :
    (items.mergeSort fun first second => rank first ≤ rank second) = items :=
  List.mergeSort_of_pairwise (sorted.imp fun below => decide_eq_true below)

end Stable

end Coral.Library

import Mathlib.Data.List.Nodup
import Mathlib.Logic.Relation

/-! Forests as lists of edges. They grow by a leaf at a time, and so have no cycle. -/

namespace Coral.Library

universe u

variable {α : Type u}

/-- There is a path of one edge or more. -/
def Descends (edges : List (α × α)) : α → α → Prop := Relation.TransGen fun above below => (above, below) ∈ edges

structure IsForest (edges : List (α × α)) : Prop where
  parents : (edges.map Prod.snd).Nodup
  acyclic : ∀ node, ¬ Descends edges node node

theorem isForest_nil : IsForest ([] : List (α × α)) where
  parents := List.nodup_nil
  acyclic := by
    intro node cycle
    obtain ⟨_, -, last⟩ := Relation.TransGen.tail'_iff.mp cycle
    cases last

theorem Descends.edge {edges : List (α × α)} {top bottom : α} (path : Descends edges top bottom) :
    (∃ below, (top, below) ∈ edges) ∧ ∃ above, (above, bottom) ∈ edges := by
  obtain ⟨below, first, -⟩ := Relation.TransGen.head'_iff.mp path
  obtain ⟨above, -, last⟩ := Relation.TransGen.tail'_iff.mp path
  exact ⟨⟨below, first⟩, above, last⟩

/-- A path that does not end in the leaf does not pass it. -/
theorem Descends.of_graft {edges : List (α × α)} {parent leaf top bottom : α} (bare : ∀ edge ∈ edges, edge.1 ≠ leaf)
    (path : Descends (edges ++ [(parent, leaf)]) top bottom) (other : bottom ≠ leaf) :
    Descends edges top bottom := by
  have old : ∀ {above below : α}, (above, below) ∈ edges ++ [(parent, leaf)] → below ≠ leaf → (above, below) ∈ edges := by
    intro above below member differs
    rcases List.mem_append.mp member with earlier | last
    · exact earlier
    · cases List.mem_singleton.mp last
      exact (differs rfl).elim
  induction path with
  | single edge => exact .single (old edge other)
  | tail path edge ih =>
    have last := old edge other
    exact .tail (ih (bare _ last)) last

theorem IsForest.graft {edges : List (α × α)} {parent leaf : α} (forest : IsForest edges)
    (unparented : ∀ edge ∈ edges, edge.2 ≠ leaf) (bare : ∀ edge ∈ edges, edge.1 ≠ leaf) (apart : parent ≠ leaf) :
    IsForest (edges ++ [(parent, leaf)]) where
  parents := by
    rw [List.map_append]
    refine forest.parents.append (List.nodup_singleton _) (List.disjoint_singleton.mpr ?_)
    intro member
    obtain ⟨edge, among, same⟩ := List.mem_map.mp member
    exact unparented edge among same
  acyclic := by
    intro node cycle
    by_cases at_leaf : node = leaf
    · subst at_leaf
      obtain ⟨⟨below, first⟩, -⟩ := cycle.edge
      rcases List.mem_append.mp first with earlier | last
      · exact bare _ earlier rfl
      · exact apart (congrArg Prod.fst (List.mem_singleton.mp last)).symm
    · exact forest.acyclic node (cycle.of_graft bare at_leaf)

/-- In a list of different keys one key is found once. -/
theorem filter_key_singleton {β : Type u} [DecidableEq β] {key : α → β} {items : List α} (distinct : (items.map key).Nodup)
    {item : α} (member : item ∈ items) : items.filter (fun other => decide (key other = key item)) = [item] := by
  induction items with
  | nil => cases member
  | cons head items ih =>
    rw [List.map_cons, List.nodup_cons] at distinct
    obtain ⟨unlisted, rest⟩ := distinct
    rcases List.mem_cons.mp member with rfl | later
    · rw [List.filter_cons_of_pos (by simp), List.filter_eq_nil_iff.mpr]
      intro other among same
      exact unlisted (List.mem_map.mpr ⟨other, among, of_decide_eq_true same⟩)
    · rw [List.filter_cons_of_neg, ih rest later]
      intro same
      exact unlisted (List.mem_map.mpr ⟨item, later, (of_decide_eq_true same).symm⟩)

end Coral.Library

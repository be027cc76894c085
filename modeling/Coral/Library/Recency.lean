import Mathlib.Data.List.Basic
import Mathlib.Data.List.Infix

/-! Recency lists: what was touched last comes first, and a window shows the front of the
list, up to a capacity. Forgetting shrinks the window, and nothing moves up into it. -/

namespace Coral.Library

universe u

structure Recency (α : Type u) (capacity : Nat) where
  all : List α
  shown : List α
  nodup : all.Nodup
  front : shown <+: all
  bounded : shown.length ≤ capacity

namespace Recency

variable {α : Type u} {capacity : Nat}

def empty : Recency α capacity := ⟨[], [], List.nodup_nil, List.prefix_refl _, Nat.zero_le _⟩

variable [DecidableEq α]

def touch (recency : Recency α capacity) (item : α) : Recency α capacity where
  all := item :: recency.all.filter (· ≠ item)
  shown := (item :: recency.shown.filter (· ≠ item)).take capacity
  nodup := by
    rw [List.nodup_cons]
    exact ⟨by simp, recency.nodup.filter _⟩
  front := (List.take_prefix _ _).trans (List.cons_prefix_cons.mpr ⟨rfl, recency.front.filter _⟩)
  bounded := List.length_take_le _ _

def forget (recency : Recency α capacity) (item : α) : Recency α capacity where
  all := recency.all.filter (· ≠ item)
  shown := recency.shown.filter (· ≠ item)
  nodup := recency.nodup.filter _
  front := recency.front.filter _
  bounded := Nat.le_trans (List.length_filter_le _ _) recency.bounded

omit [DecidableEq α] in
theorem take_shown (recency : Recency α capacity) {count : Nat} (fits : count ≤ recency.shown.length) :
    recency.shown.take count = recency.all.take count := by
  obtain ⟨rest, whole⟩ := recency.front
  rw [← whole, List.take_append_of_le_length fits]

omit [DecidableEq α] in
theorem shown_le (recency : Recency α capacity) : recency.shown.length ≤ recency.all.length := recency.front.length_le

omit [DecidableEq α] in
/-- A window that is as long as the list is the list. -/
theorem shown_eq_all (recency : Recency α capacity) (whole : recency.shown.length = recency.all.length) :
    recency.shown = recency.all := recency.front.eq_of_length whole

theorem mem_touch {recency : Recency α capacity} {item other : α} :
    other ∈ (recency.touch item).all ↔ other = item ∨ other ∈ recency.all := by
  simp only [touch, List.mem_cons, List.mem_filter, decide_eq_true_eq]
  constructor
  · rintro (same | ⟨member, -⟩)
    · exact .inl same
    · exact .inr member
  · rintro (same | member)
    · exact .inl same
    · by_cases same : other = item
      · exact .inl same
      · exact .inr ⟨member, same⟩

theorem mem_forget {recency : Recency α capacity} {item other : α} :
    other ∈ (recency.forget item).all ↔ other ∈ recency.all ∧ other ≠ item := by
  simp [forget]

end Recency

end Coral.Library

import Mathlib.Data.List.Basic
import Mathlib.Data.List.Pairwise
import Mathlib.Data.Prod.Lex

/-! Events numbered by the round they belong to and their place in it. Rounds come one after
the other, and each counts from zero. -/

namespace Coral.Library

/-- The numbers of all events, by how many of them each round has. -/
def roundKeys : List Nat → List (Nat × Nat)
  | [] => []
  | count :: counts => (List.range count).map (0, ·) ++ (roundKeys counts).map fun (round, place) => (round + 1, place)

theorem roundKeys_append (earlier later : List Nat) :
    roundKeys (earlier ++ later) =
      roundKeys earlier ++ (roundKeys later).map fun (round, place) => (round + earlier.length, place) := by
  induction earlier with
  | nil => simp [roundKeys]
  | cons count earlier ih =>
    simp only [List.cons_append, roundKeys, ih, List.map_append, List.append_assoc, List.map_map, List.length_cons]
    rfl

theorem roundKeys_snoc (counts : List Nat) (count : Nat) :
    roundKeys (counts ++ [count]) = roundKeys counts ++ (List.range count).map (counts.length, ·) := by
  simp [roundKeys_append, roundKeys]

/-- One more event of the last round. -/
theorem roundKeys_next (counts : List Nat) (count : Nat) :
    roundKeys (counts ++ [count + 1]) = roundKeys (counts ++ [count]) ++ [(counts.length, count)] := by
  simp [roundKeys_snoc, List.range_succ]

theorem roundKeys_open (counts : List Nat) : roundKeys (counts ++ [0]) = roundKeys counts := by
  simp [roundKeys_snoc]

/-- The numbers increase, by rounds first. -/
theorem pairwise_roundKeys (counts : List Nat) : (roundKeys counts).Pairwise (Prod.Lex (· < ·) (· < ·)) := by
  induction counts with
  | nil => exact .nil
  | cons count counts ih =>
    refine List.pairwise_append.mpr ⟨?_, ?_, ?_⟩
    · exact List.pairwise_map.mpr (List.pairwise_lt_range.imp fun below => .right 0 below)
    · refine List.pairwise_map.mpr (ih.imp ?_)
      rintro ⟨first, place⟩ ⟨second, other⟩ below
      rcases below with ⟨_, _, below⟩ | ⟨_, below⟩
      · exact .left _ _ (Nat.succ_lt_succ below)
      · exact .right _ below
    · intro first early second late
      obtain ⟨place, -, rfl⟩ := List.mem_map.mp early
      obtain ⟨⟨round, other⟩, -, rfl⟩ := List.mem_map.mp late
      exact .left _ _ (Nat.succ_pos round)

/-- Within a round the places are counted without gaps. -/
theorem places_roundKeys (counts : List Nat) (round : Nat) :
    ((roundKeys counts).filter (·.1 = round)).map (·.2) = List.range (counts[round]?.getD 0) := by
  induction counts generalizing round with
  | nil => simp [roundKeys]
  | cons count counts ih =>
    simp only [roundKeys, List.filter_append, List.map_append, List.filter_map, List.map_map]
    cases round with
    | zero => simp [Function.comp_def]
    | succ round =>
      have rest := ih round
      simp only [List.getElem?_cons_succ] at rest ⊢
      rw [← rest]
      simp [Function.comp_def]

end Coral.Library

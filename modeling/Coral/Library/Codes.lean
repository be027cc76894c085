import Mathlib.Data.List.Basic

/-! Reading words off the front of a text. A word is told from what follows it either by
itself or by a stopping symbol; sequences of such words are told apart in turn. -/

namespace Coral.Library

universe u v w

variable {α : Type u} {β : Type v} {κ : Type w}

/-- The text ends, or goes on with a stopping symbol. -/
def Stopped (stops : κ → Prop) : List κ → Prop
  | [] => True
  | symbol :: _ => stops symbol

/-- Whatever stopped text the value's word is in front of, no other value's word is in front
of it, up to the meaning. -/
def ReadsOff (stops : κ → Prop) (code : α → List κ) (meaning : α → β) (valid : α → Prop) (value : α) : Prop :=
  ∀ other rest more, valid other → Stopped stops rest → Stopped stops more →
    code value ++ rest = code other ++ more → meaning value = meaning other ∧ rest = more

/-- Words that hold no stopping symbol end where the first one stands. -/
theorem stopped_inj {stops : κ → Prop} {first second rest more : List κ} (free : ∀ symbol ∈ first, ¬ stops symbol)
    (clean : ∀ symbol ∈ second, ¬ stops symbol) (stopped : Stopped stops rest) (halted : Stopped stops more)
    (same : first ++ rest = second ++ more) : first = second ∧ rest = more := by
  induction first generalizing second with
  | nil =>
    cases second with
    | nil => exact ⟨rfl, same⟩
    | cons symbol second =>
      obtain rfl : rest = symbol :: (second ++ more) := same
      exact (clean symbol List.mem_cons_self stopped).elim
  | cons symbol first ih =>
    cases second with
    | nil =>
      obtain rfl : symbol :: (first ++ rest) = more := same
      exact (free symbol List.mem_cons_self halted).elim
    | cons other second =>
      rw [List.cons_append, List.cons_append, List.cons.injEq] at same
      obtain ⟨rfl, same⟩ := same
      obtain ⟨rfl, whole⟩ := ih (fun symbol member => free symbol (List.mem_cons_of_mem _ member))
        (fun symbol member => clean symbol (List.mem_cons_of_mem _ member)) same
      exact ⟨rfl, whole⟩

/-- Letters of a code that has no letter start another, up to a mark that starts none. -/
theorem flatMap_inj {code : α → List κ} {mark : κ} {letters others : List α} {rest more : List κ}
    (apart : ∀ letter other rest more, code letter ++ rest = code other ++ more → letter = other ∧ rest = more)
    (unmarked : ∀ letter rest more, code letter ++ rest ≠ mark :: more)
    (same : letters.flatMap code ++ mark :: rest = others.flatMap code ++ mark :: more) : letters = others ∧ rest = more := by
  induction letters generalizing others with
  | nil =>
    cases others with
    | nil => exact ⟨rfl, (List.cons.inj same).2⟩
    | cons other others =>
      rw [List.flatMap_cons, List.append_assoc] at same
      exact (unmarked other _ _ same.symm).elim
  | cons letter letters ih =>
    cases others with
    | nil =>
      rw [List.flatMap_cons, List.append_assoc] at same
      exact (unmarked letter _ _ same).elim
    | cons other others =>
      rw [List.flatMap_cons, List.flatMap_cons, List.append_assoc, List.append_assoc] at same
      obtain ⟨rfl, tail⟩ := apart letter other _ _ same
      obtain ⟨rfl, whole⟩ := ih tail
      exact ⟨rfl, whole⟩

/-- The words, with a symbol between each two. -/
def separated (separator : κ) : List (List κ) → List κ
  | [] => []
  | word :: words => word ++ words.flatMap (separator :: ·)

section Sequences

variable {stops : κ → Prop} {code : α → List κ} {meaning : α → β} {valid : α → Prop} {separator closing : κ}
  {values others : List α} {rest more : List κ}

private theorem separated_tail (parts : separator ≠ closing) (halts : stops separator) (closes : stops closing)
    (each : ∀ value ∈ values, ReadsOff stops code meaning valid value) (sound : ∀ other ∈ others, valid other)
    (same : (values.map code).flatMap (separator :: ·) ++ closing :: rest =
      (others.map code).flatMap (separator :: ·) ++ closing :: more) :
    values.map meaning = others.map meaning ∧ rest = more := by
  have stopped : ∀ (list : List α) (text : List κ),
      Stopped stops ((list.map code).flatMap (separator :: ·) ++ closing :: text) := by
    intro list text
    cases list with
    | nil => exact closes
    | cons value list => exact halts
  induction values generalizing others with
  | nil =>
    cases others with
    | nil => exact ⟨rfl, (List.cons.inj same).2⟩
    | cons other others => exact (parts (List.cons.inj same).1.symm).elim
  | cons value values ih =>
    cases others with
    | nil => exact (parts (List.cons.inj same).1).elim
    | cons other others =>
      simp only [List.map_cons, List.flatMap_cons, List.cons_append, List.append_assoc, List.cons.injEq, true_and] at same
      obtain ⟨head, tail⟩ := each value List.mem_cons_self other _ _ (sound other List.mem_cons_self)
        (stopped values rest) (stopped others more) same
      obtain ⟨meanings, whole⟩ := ih (fun value member => each value (List.mem_cons_of_mem _ member))
        (fun other member => sound other (List.mem_cons_of_mem _ member)) tail
      exact ⟨by rw [List.map_cons, List.map_cons, head, meanings], whole⟩

/-- A closed sequence is read off value by value, as no word is empty or starts with a stop. -/
theorem separated_inj (parts : separator ≠ closing) (halts : stops separator) (closes : stops closing)
    (opens : ∀ value, valid value → ∀ text more, code value ++ text = more → ¬ Stopped stops more)
    (each : ∀ value ∈ values, valid value ∧ ReadsOff stops code meaning valid value)
    (sound : ∀ other ∈ others, valid other)
    (same : separated separator (values.map code) ++ closing :: rest =
      separated separator (others.map code) ++ closing :: more) :
    values.map meaning = others.map meaning ∧ rest = more := by
  cases values with
  | nil =>
    cases others with
    | nil => exact ⟨rfl, (List.cons.inj same).2⟩
    | cons other others =>
      simp only [separated, List.map_cons, List.append_assoc] at same
      exact (opens other (sound other List.mem_cons_self) _ _ same.symm closes).elim
  | cons value values =>
    cases others with
    | nil =>
      simp only [separated, List.map_cons, List.append_assoc] at same
      exact (opens value (each value List.mem_cons_self).1 _ _ same closes).elim
    | cons other others =>
      apply separated_tail parts halts closes (fun value member => (each value member).2) sound
      simpa only [separated, List.map_cons, List.flatMap_cons, List.cons_append, List.append_assoc, List.cons.injEq,
        true_and] using same

end Sequences

end Coral.Library
